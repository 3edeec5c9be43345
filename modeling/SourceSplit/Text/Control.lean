import SourceSplit.Text.Offset

/-!
# SourceSplit.Text.Control

Texts for a terminal, without what a terminal would not show: control characters, and the control
sequences that an escape character opens.

`withoutControls_of_shown` and `isShown_of_mem_withoutControls`: a text that holds only characters
which are shown is kept as it is, and no other character is left in any text.
-/

namespace SourceSplit
namespace Text

/-- What the character at hand is part of. A sequence introduced by `[` is a control sequence, by
`]` a command to the terminal's system, by `P` a string for a device, which follows parameters. -/
inductive Mode where
  | text
  | escape
  | escapeMore
  | sequence
  | command
  | device
  | deviceParameters
  | deviceMore
  | string
  deriving DecidableEq, Repr

def isIntermediate (c : Char) : Bool :=
  0x20 ≤ c.toNat && c.toNat ≤ 0x2F

def isParameter (c : Char) : Bool :=
  0x30 ≤ c.toNat && c.toNat ≤ 0x3F

def isFinal (c : Char) : Bool :=
  0x40 ≤ c.toNat && c.toNat ≤ 0x7E

/-- The mode after an escape character and `c`. -/
def Mode.afterEscape (c : Char) : Mode :=
  if isIntermediate c then .escapeMore
  else if c = '[' then .sequence
  else if c = ']' then .command
  else if c = 'P' then .device
  else if c = 'X' ∨ c = '^' ∨ c = '_' then .string
  else if isParameter c ∨ isFinal c then .text
  else .escape

/-- The mode behind a character that is not shown. An escape character opens a new sequence
anywhere, and two control characters break any sequence off. A string ends at the byte of the
string terminator, also where that byte is part of a character. -/
def Mode.next (mode : Mode) (c : Char) : Mode :=
  if c = '\x1b' then .escape
  else if c = '\x18' ∨ c = '\x1a' then .text
  else
    match mode with
    | .text => .text
    | .escape => .afterEscape c
    | .escapeMore => if isParameter c ∨ isFinal c then .text else .escapeMore
    | .sequence => if isFinal c then .text else .sequence
    | .command => if c = '\x07' then .text else .command
    | .device =>
      if isIntermediate c then .deviceMore
      else if isParameter c then .deviceParameters
      else if isFinal c then .string
      else .device
    | .deviceParameters =>
      if isIntermediate c then .deviceMore
      else if ('<' ≤ c ∧ c ≤ '?') ∨ isFinal c then .string
      else .deviceParameters
    | .deviceMore => if isParameter c ∨ isFinal c then .string else .deviceMore
    | .string => if 0x9C ∈ String.utf8EncodeChar c then .text else .string

/-- White space that is also a control character. -/
def isLayout (c : Char) : Bool :=
  c = '\t' || c = '\n' || c = '\x0c' || c = '\r'

/-- Whether a character stays in a text. -/
def isShown (c : Char) : Bool :=
  isLayout c || (0x20 ≤ c.toNat && c ≠ '\x7f')

def Mode.shows (mode : Mode) (c : Char) : Bool :=
  match mode with
  | .text => isShown c
  | .escape | .escapeMore | .sequence => isLayout c
  | .command | .device | .deviceParameters | .deviceMore | .string => false

theorem Mode.isShown_of_shows {mode : Mode} {c : Char} (h : mode.shows c = true) :
    isShown c = true := by
  cases mode <;> simp_all [Mode.shows, isShown]

/-- Leaves out what is not shown. Layout inside a sequence is shown, and in the `run` of shown
characters that it starts the sequence rests; a character beyond ASCII in the run ends it. -/
def dropControls (mode : Mode) (run : Bool) : List Char → List Char
  | [] => []
  | c :: rest =>
    if mode.shows c || run && isShown c then
      c :: dropControls (if c.toNat < 0x80 then mode else .text) true rest
    else dropControls (mode.next c) false rest

def withoutControls (cs : List Char) : List Char :=
  dropControls .text false cs

theorem dropControls_of_shown {run : Bool} {cs : List Char} (h : ∀ c ∈ cs, isShown c = true) :
    dropControls .text run cs = cs := by
  induction cs generalizing run with
  | nil => rfl
  | cons c cs ih =>
    have hc : isShown c = true := h c (by simp)
    have hcs : ∀ d ∈ cs, isShown d = true := fun d hd => h d (List.mem_cons_of_mem c hd)
    simp [dropControls, Mode.shows, hc, ih hcs]

theorem isShown_of_mem_dropControls {mode : Mode} {run : Bool} {cs : List Char} {c : Char}
    (h : c ∈ dropControls mode run cs) : isShown c = true := by
  induction cs generalizing mode run with
  | nil => cases h
  | cons d cs ih =>
    simp only [dropControls] at h
    split at h
    · rename_i hd
      rcases List.mem_cons.1 h with rfl | h
      · simp only [Bool.or_eq_true, Bool.and_eq_true] at hd
        rcases hd with hd | hd
        · exact Mode.isShown_of_shows hd
        · exact hd.2
      · exact ih h
    · exact ih h

theorem withoutControls_of_shown {cs : List Char} (h : ∀ c ∈ cs, isShown c = true) :
    withoutControls cs = cs :=
  dropControls_of_shown h

theorem isShown_of_mem_withoutControls {cs : List Char} {c : Char} (h : c ∈ withoutControls cs) :
    isShown c = true :=
  isShown_of_mem_dropControls h

end Text
end SourceSplit
