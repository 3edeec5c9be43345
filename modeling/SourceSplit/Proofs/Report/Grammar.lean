import SourceSplit.Report.Json

/-!
# SourceSplit.Proofs.Report.Grammar

The grammar of JSON texts (RFC 8259), each rule as a relation between a text, what is read at its
front, and what stands behind that.

* `Spells`: the text is one value, with blanks around it at most.
* `Reads.unique`: what is read is read in one way only. A number can be cut short, so this needs
  that what stands behind it may follow a value.
-/

namespace SourceSplit
namespace Report
namespace Grammar

/-- The text is at its end, or goes on with one of the characters. -/
def Next (chars cs : List Char) : Prop :=
  ∀ c ∈ cs.head?, c ∈ chars

/-- The text does not go on with a character that has `p`. -/
def Halts (p : Char → Bool) (cs : List Char) : Prop :=
  ∀ c ∈ cs.head?, p c = false

/-- Characters with `p` at the front of a text. -/
structure Run (p : Char → Bool) (text run rest : List Char) : Prop where
  text_eq : text = run ++ rest
  all : ∀ c ∈ run, p c = true

/-! ## The rules -/

def blanks : List Char := [' ', '\t', '\n', '\r']

/-- `ws` -/
def Blanks (text rest : List Char) : Prop :=
  ∃ run, Run (· ∈ blanks) text run rest

/-- `1*DIGIT` -/
structure Digits (text digits rest : List Char) : Prop extends
    Run Char.isDigit text digits rest where
  ne_nil : digits ≠ []

/-- `zero / ( digit1-9 *DIGIT )` -/
structure Whole (text digits rest : List Char) : Prop extends Digits text digits rest where
  zero : digits.head? = some '0' → digits = ['0']

/-- `[ minus / plus ]` -/
inductive Sign : List Char → Int → List Char → Prop where
  | none {rest : List Char} : Sign rest 1 rest
  | minus {rest : List Char} : Sign ('-' :: rest) (-1) rest
  | plus {rest : List Char} : Sign ('+' :: rest) 1 rest

/-- `[ decimal-point 1*DIGIT ]` -/
inductive Fraction : List Char → List Char → List Char → Prop where
  | none {rest : List Char} : Fraction rest [] rest
  | digits {text digits rest : List Char} :
      Digits text digits rest → Fraction ('.' :: text) digits rest

/-- `[ e [ minus / plus ] 1*DIGIT ]` -/
inductive Exponent : List Char → Int → List Char → Prop where
  | none {rest : List Char} : Exponent rest 0 rest
  | digits {mark : Char} {text mid digits rest : List Char} {sign : Int} :
      mark ∈ ['e', 'E'] → Sign text sign mid → Digits mid digits rest →
      Exponent (mark :: text) (sign * Nat.ofDigitChars 10 digits 0) rest

/-- `[ minus ] int [ frac ] [ exp ]`, with the number that the digits without the point are, and
the power of ten that it is multiplied by. -/
inductive Numeral : List Char → Int → Int → List Char → Prop where
  | mk {text behindSign behindWhole behindPart rest whole part : List Char} {sign power : Int} :
      text.head? ≠ some '+' → Sign text sign behindSign → Whole behindSign whole behindWhole →
      Fraction behindWhole part behindPart → Exponent behindPart power rest →
      Numeral text (sign * Nat.ofDigitChars 10 (whole ++ part) 0) (power - part.length) rest

def hexDigit? (c : Char) : Option Nat :=
  "0123456789abcdef".toList.idxOf? c.toLower

/-- `4HEXDIG` -/
def unit? (a b c d : Char) : Option Nat := do
  return 4096 * (← hexDigit? a) + 256 * (← hexDigit? b) + 16 * (← hexDigit? c) + (← hexDigit? d)

/-- What stands behind a backslash, and for which character. -/
def letters : List (Char × Char) := [('"', '"'), ('\\', '\\'), ('/', '/'), ('b', '\x08'),
  ('f', '\x0c'), ('n', '\n'), ('r', '\r'), ('t', '\t')]

/-- The rule `char` for a character. Outside of the basic plane it takes two surrogates. -/
inductive Writes : List Char → Char → List Char → Prop where
  | plain {c : Char} {rest : List Char} :
      0x20 ≤ c.toNat → c ≠ '"' → c ≠ '\\' → Writes (c :: rest) c rest
  | letter {e c : Char} {rest : List Char} : (e, c) ∈ letters → Writes ('\\' :: e :: rest) c rest
  | unit {a b c d char : Char} {rest : List Char} :
      unit? a b c d = some char.toNat → Writes ('\\' :: 'u' :: a :: b :: c :: d :: rest) char rest
  | pair {a b c d e f g h char : Char} {high low : Nat} {rest : List Char} :
      unit? a b c d = some high → 0xD800 ≤ high → high < 0xDC00 →
      unit? e f g h = some low → 0xDC00 ≤ low → low < 0xE000 →
      char.toNat = 0x10000 + 0x400 * (high - 0xD800) + (low - 0xDC00) →
      Writes ('\\' :: 'u' :: a :: b :: c :: d :: '\\' :: 'u' :: e :: f :: g :: h :: rest) char rest

/-- `*char quotation-mark`: a string behind its opening quote. -/
inductive Quoted : List Char → List Char → List Char → Prop where
  | close {rest : List Char} : Quoted ('"' :: rest) [] rest
  | char {text mid cs rest : List Char} {c : Char} :
      Writes text c mid → Quoted mid cs rest → Quoted text (c :: cs) rest

/-- The parts that the rules for values are made of. An item is a value with its blanks, items
and members each stand behind a comma. -/
inductive Part where
  | value
  | item
  | items
  | member
  | members

/-- What a part is read as. -/
abbrev Part.Meaning : Part → Type
  | .value | .item => Json
  | .items => List Json
  | .member => String × Json
  | .members => List (String × Json)

/-- The rules for values. A number is read if it is a natural one, as all numbers in `Json` are. -/
inductive Reads : (part : Part) → List Char → part.Meaning → List Char → Prop where
  | nullName {rest : List Char} : Reads .value ('n' :: 'u' :: 'l' :: 'l' :: rest) Json.null rest
  | trueName {rest : List Char} :
      Reads .value ('t' :: 'r' :: 'u' :: 'e' :: rest) (Json.bool true) rest
  | falseName {rest : List Char} :
      Reads .value ('f' :: 'a' :: 'l' :: 's' :: 'e' :: rest) (Json.bool false) rest
  | number {text rest : List Char} {mantissa power : Int} {n : Nat} :
      Numeral text mantissa power rest →
      mantissa * Nat.pow 10 power.toNat = n * Nat.pow 10 (-power).toNat →
      Reads .value text (Json.number n) rest
  | text {text rest : List Char} {string : String} :
      Quoted text string.toList rest → Reads .value ('"' :: text) (Json.text string) rest
  | emptyArray {text rest : List Char} :
      Blanks text (']' :: rest) → Reads .value ('[' :: text) (Json.array []) rest
  | array {text mid rest : List Char} {first : Json} {others : List Json} :
      Reads .item text first mid → Reads .items mid others (']' :: rest) →
      Reads .value ('[' :: text) (Json.array (first :: others)) rest
  | emptyObject {text rest : List Char} :
      Blanks text ('\x7d' :: rest) → Reads .value ('\x7b' :: text) (Json.object []) rest
  | object {text mid rest : List Char} {first : String × Json} {others : List (String × Json)} :
      Reads .member text first mid → Reads .members mid others ('\x7d' :: rest) →
      Reads .value ('\x7b' :: text) (Json.object (first :: others)) rest
  | item {text front behind rest : List Char} {json : Json} :
      Blanks text front → Reads .value front json behind → Blanks behind rest →
      Reads .item text json rest
  | noItems {rest : List Char} : Reads .items rest [] rest
  | items {text mid rest : List Char} {first : Json} {others : List Json} :
      Reads .item text first mid → Reads .items mid others rest →
      Reads .items (',' :: text) (first :: others) rest
  | member {text key behind value rest : List Char} {name : String} {json : Json} :
      Blanks text ('"' :: key) → Quoted key name.toList behind → Blanks behind (':' :: value) →
      Reads .item value json rest → Reads .member text (name, json) rest
  | noMembers {rest : List Char} : Reads .members rest [] rest
  | members {text mid rest : List Char} {first : String × Json} {others : List (String × Json)} :
      Reads .member text first mid → Reads .members mid others rest →
      Reads .members (',' :: text) (first :: others) rest

/-- The text is the value, with blanks around it at most. -/
def Spells (text : String) (json : Json) : Prop :=
  Reads .item text.toList json []

/-- What may stand behind a part. -/
def Part.follow : Part → List Char
  | .value => [',', ']', '\x7d', ' ', '\t', '\n', '\r']
  | .item | .member => [',', ']', '\x7d']
  | .items | .members => [']', '\x7d']

/-! ## Runs and blanks -/

section

variable {p : Char → Bool} {chars text run run' rest rest' : List Char}

theorem Next.mono {more : List Char} (h : Next chars rest) (hsub : chars ⊆ more) :
    Next more rest :=
  fun c hc => hsub (h c hc)

theorem next_nil : Next chars [] := by
  simp [Next]

theorem next_cons {c : Char} (hc : c ∈ chars) : Next chars (c :: rest) := by
  intro d hd
  obtain rfl := Option.some.inj hd
  exact hc

theorem Next.halts (h : Next chars rest) (hchars : chars.any p = false) : Halts p rest :=
  fun c hc => eq_false_of_ne_true (List.any_eq_false.1 hchars c (h c hc))

theorem halts_cons {c : Char} (hc : p c = false) : Halts p (c :: rest) := by
  intro d hd
  obtain rfl := Option.some.inj hd
  exact hc

theorem Run.dropWhile_eq (h : Run p text run rest) (hr : Halts p rest) :
    text.dropWhile p = rest := by
  rw [h.text_eq, List.dropWhile_append_of_pos h.all]
  cases rest with
  | nil => rfl
  | cons c cs => rw [List.dropWhile_cons, hr c rfl, if_neg Bool.false_ne_true]

theorem Run.takeWhile_eq (h : Run p text run rest) (hr : Halts p rest) :
    text.takeWhile p = run := by
  rw [h.text_eq, List.takeWhile_append_of_pos h.all]
  cases rest with
  | nil => rw [List.takeWhile_nil, List.append_nil]
  | cons c cs => rw [List.takeWhile_cons, hr c rfl, if_neg Bool.false_ne_true, List.append_nil]

theorem Run.unique (h : Run p text run rest) (h' : Run p text run' rest') (hr : Halts p rest)
    (hr' : Halts p rest') : run = run' ∧ rest = rest' := by
  have hrest : rest = rest' := (h.dropWhile_eq hr).symm.trans (h'.dropWhile_eq hr')
  refine ⟨?_, hrest⟩
  have htext := h.text_eq.symm.trans h'.text_eq
  rw [hrest] at htext
  exact List.append_cancel_right htext

theorem Blanks.refl : Blanks rest rest :=
  ⟨[], rfl, by simp⟩

theorem Blanks.unique (h : Blanks text rest) (h' : Blanks text rest')
    (hr : Halts (· ∈ blanks) rest) (hr' : Halts (· ∈ blanks) rest') : rest = rest' := by
  obtain ⟨_, hrun⟩ := h
  obtain ⟨_, hrun'⟩ := h'
  exact (hrun.unique hrun' hr hr').2

/-- Behind blanks, the next character is one and the same. -/
theorem Blanks.cons_unique {c d : Char} (h : Blanks text (c :: rest))
    (h' : Blanks text (d :: rest')) (hc : decide (c ∈ blanks) = false)
    (hd : decide (d ∈ blanks) = false) : c = d ∧ rest = rest' :=
  List.cons.inj (h.unique h' (halts_cons hc) (halts_cons hd))

/-- What may stand behind an item may, behind blanks, stand behind its value. -/
theorem Blanks.next (h : Blanks text rest) (hr : Next Part.item.follow rest) :
    Next Part.value.follow text := by
  obtain ⟨run, rfl, hall⟩ := h
  cases run with
  | nil => exact hr.mono (by decide)
  | cons c run =>
    have hsub : blanks ⊆ Part.value.follow := by decide
    exact next_cons (hsub (of_decide_eq_true (hall c (by simp))))

end

/-! ## Numbers -/

section

variable {c : Char} {text mid mid' digits digits' rest rest' : List Char}

theorem Digits.head (h : Digits (c :: text) digits rest) : c.isDigit = true := by
  cases digits with
  | nil => exact absurd rfl h.ne_nil
  | cons d digits =>
    obtain ⟨rfl, -⟩ := List.cons.inj h.text_eq
    exact h.all c (by simp)

theorem Digits.unique (h : Digits text digits rest) (h' : Digits text digits' rest')
    (hr : Halts Char.isDigit rest) (hr' : Halts Char.isDigit rest') :
    digits = digits' ∧ rest = rest' :=
  h.toRun.unique h'.toRun hr hr'

theorem Sign.unique {sign sign' : Int} (h : Sign text sign mid) (h' : Sign text sign' mid')
    (hd : Digits mid digits rest) (hd' : Digits mid' digits' rest') :
    sign = sign' ∧ mid = mid' := by
  cases h with
  | none =>
    cases h' with
    | none => exact ⟨rfl, rfl⟩
    | minus => exact absurd hd.head (by decide)
    | plus => exact absurd hd.head (by decide)
  | minus =>
    cases h' with
    | none => exact absurd hd'.head (by decide)
    | minus => exact ⟨rfl, rfl⟩
  | plus =>
    cases h' with
    | none => exact absurd hd'.head (by decide)
    | plus => exact ⟨rfl, rfl⟩

theorem Exponent.next {power : Int} (h : Exponent text power rest)
    (hr : Next Part.value.follow rest) : Next ('e' :: 'E' :: Part.value.follow) text := by
  cases h with
  | none => exact hr.mono (by decide)
  | digits hmark _ _ => exact next_cons (List.mem_append_left _ hmark)

theorem not_follow_of_mark (hc : c ∈ ['e', 'E']) : c ∉ Part.value.follow := by
  simp only [List.mem_cons, List.not_mem_nil, or_false] at hc
  rcases hc with rfl | rfl <;> decide

theorem Exponent.unique {power power' : Int} (h : Exponent text power rest)
    (h' : Exponent text power' rest') (hr : Next Part.value.follow rest)
    (hr' : Next Part.value.follow rest') : power = power' ∧ rest = rest' := by
  have hdigits : Part.value.follow.any Char.isDigit = false := by decide
  cases h with
  | none =>
    cases h' with
    | none => exact ⟨rfl, rfl⟩
    | digits hmark _ _ => exact absurd (hr _ rfl) (not_follow_of_mark hmark)
  | digits hmark hsign hd =>
    cases h' with
    | none => exact absurd (hr' _ rfl) (not_follow_of_mark hmark)
    | digits _ hsign' hd' =>
      obtain ⟨rfl, rfl⟩ := hsign.unique hsign' hd hd'
      obtain ⟨rfl, rfl⟩ := hd.unique hd' (hr.halts hdigits) (hr'.halts hdigits)
      exact ⟨rfl, rfl⟩

theorem Fraction.next (h : Fraction text digits rest)
    (hr : Next ('e' :: 'E' :: Part.value.follow) rest) :
    Next ('.' :: 'e' :: 'E' :: Part.value.follow) text := by
  cases h with
  | none => exact hr.mono (List.subset_cons_self _ _)
  | digits _ => exact next_cons (.head _)

theorem Fraction.unique (h : Fraction text digits rest) (h' : Fraction text digits' rest')
    (hr : Next ('e' :: 'E' :: Part.value.follow) rest)
    (hr' : Next ('e' :: 'E' :: Part.value.follow) rest') : digits = digits' ∧ rest = rest' := by
  have hdigits : ('e' :: 'E' :: Part.value.follow).any Char.isDigit = false := by decide
  have hpoint : '.' ∉ 'e' :: 'E' :: Part.value.follow := by decide
  cases h with
  | none =>
    cases h' with
    | none => exact ⟨rfl, rfl⟩
    | digits _ => exact absurd (hr _ rfl) hpoint
  | digits hd =>
    cases h' with
    | none => exact absurd (hr' _ rfl) hpoint
    | digits hd' => exact hd.unique hd' (hr.halts hdigits) (hr'.halts hdigits)

theorem Numeral.unique {mantissa mantissa' power power' : Int}
    (h : Numeral text mantissa power rest) (h' : Numeral text mantissa' power' rest')
    (hr : Next Part.value.follow rest) (hr' : Next Part.value.follow rest') :
    mantissa = mantissa' ∧ power = power' ∧ rest = rest' := by
  obtain ⟨-, hsign, hwhole, hpart, hpower⟩ := h
  obtain ⟨-, hsign', hwhole', hpart', hpower'⟩ := h'
  have hnext := hpower.next hr
  have hnext' := hpower'.next hr'
  have hdigits : ('.' :: 'e' :: 'E' :: Part.value.follow).any Char.isDigit = false := by decide
  obtain ⟨rfl, rfl⟩ := hsign.unique hsign' hwhole.toDigits hwhole'.toDigits
  obtain ⟨rfl, rfl⟩ := hwhole.toDigits.unique hwhole'.toDigits
    ((hpart.next hnext).halts hdigits) ((hpart'.next hnext').halts hdigits)
  obtain ⟨rfl, rfl⟩ := hpart.unique hpart' hnext hnext'
  obtain ⟨rfl, rfl⟩ := hpower.unique hpower' hr hr'
  exact ⟨rfl, rfl, rfl⟩

theorem Numeral.head {mantissa power : Int} (h : Numeral (c :: text) mantissa power rest) :
    c = '-' ∨ c.isDigit = true := by
  obtain ⟨hplus, hsign, hwhole, -, -⟩ := h
  cases hsign with
  | none => exact .inr hwhole.head
  | minus => exact .inl rfl
  | plus => exact absurd rfl hplus

theorem not_numeral_cons {mantissa power : Int} (hc : ¬ (c = '-' ∨ c.isDigit = true)) :
    ¬ Numeral (c :: text) mantissa power rest :=
  fun h => hc h.head

theorem not_numeral_nil {mantissa power : Int} : ¬ Numeral [] mantissa power rest := by
  rintro ⟨-, hsign, hwhole, -, -⟩
  cases hsign
  exact hwhole.ne_nil (List.append_eq_nil_iff.1 hwhole.text_eq.symm).1

end

/-! ## Strings -/

section

variable {c d : Char} {text cs ds rest rest' : List Char}

/-- A surrogate is not a character. -/
theorem not_surrogate (c : Char) (hle : 0xD800 ≤ c.toNat) : ¬ c.toNat < 0xDC00 := by
  have hvalid : c.toNat < 0xD800 ∨ 0xDFFF < c.toNat ∧ c.toNat < 0x110000 := c.valid
  omega

theorem Writes.unique (h : Writes text c rest) (h' : Writes text d rest') :
    c = d ∧ rest = rest' := by
  have hletters : ∀ e ∈ letters, ∀ f ∈ letters, e.1 = f.1 → e.2 = f.2 := by decide
  have hunit : ∀ e ∈ letters, e.1 ≠ 'u' := by decide
  cases h with
  | plain _ _ hback =>
    cases h' with
    | plain _ _ _ => exact ⟨rfl, rfl⟩
    | letter _ | unit _ | pair _ _ _ _ _ _ _ => exact absurd rfl hback
  | letter hmem =>
    cases h' with
    | plain _ _ hback => exact absurd rfl hback
    | letter hmem' => exact ⟨hletters _ hmem _ hmem' rfl, rfl⟩
    | unit _ | pair _ _ _ _ _ _ _ => exact absurd rfl (hunit _ hmem)
  | unit hcode =>
    cases h' with
    | plain _ _ hback => exact absurd rfl hback
    | letter hmem => exact absurd rfl (hunit _ hmem)
    | unit hcode' =>
      have hcodes := Option.some.inj (hcode.symm.trans hcode')
      exact ⟨Char.toNat_inj.1 hcodes, rfl⟩
    | pair hhigh hle hlt _ _ _ _ =>
      obtain rfl := Option.some.inj (hcode.symm.trans hhigh)
      exact absurd hlt (not_surrogate c hle)
  | pair hhigh hle hlt hlow hle' hlt' hchar =>
    cases h' with
    | plain _ _ hback => exact absurd rfl hback
    | letter hmem => exact absurd rfl (hunit _ hmem)
    | unit hcode =>
      obtain rfl := Option.some.inj (hcode.symm.trans hhigh)
      exact absurd hlt (not_surrogate d hle)
    | pair hhigh' _ _ hlow' _ _ hchar' =>
      obtain rfl := Option.some.inj (hhigh.symm.trans hhigh')
      obtain rfl := Option.some.inj (hlow.symm.trans hlow')
      exact ⟨Char.toNat_inj.1 (hchar.trans hchar'.symm), rfl⟩

theorem not_writes_quote : ¬ Writes ('"' :: text) c rest := by
  rintro (⟨-, hne, -⟩)
  exact hne rfl

theorem Quoted.unique (h : Quoted text cs rest) (h' : Quoted text ds rest') :
    cs = ds ∧ rest = rest' := by
  induction h generalizing ds rest' with
  | close =>
    cases h' with
    | close => exact ⟨rfl, rfl⟩
    | char hc _ => exact absurd hc not_writes_quote
  | char hc _ ih =>
    cases h' with
    | close => exact absurd hc not_writes_quote
    | char hc' hrest' =>
      obtain ⟨rfl, rfl⟩ := hc.unique hc'
      obtain ⟨rfl, rfl⟩ := ih hrest'
      exact ⟨rfl, rfl⟩

end

/-! ## Values -/

section

variable {c : Char} {text front rest rest' : List Char}

theorem eq_of_scaled {k m n : Nat} (h : (m : Int) * Nat.pow 10 k = n * Nat.pow 10 k) : m = n := by
  have hpos : 0 < Nat.pow 10 k := Nat.pow_pos (by decide)
  exact Int.ofNat_inj.1 (Int.eq_of_mul_eq_mul_right (by omega) h)

/-- A value does not begin with what may stand behind one. -/
theorem Reads.head {json : Json} (h : Reads .value text json rest) :
    ∃ c cs, text = c :: cs ∧ c ∉ Part.value.follow := by
  cases h with
  | number hnumber =>
    cases text with
    | nil => exact absurd hnumber not_numeral_nil
    | cons c cs =>
      refine ⟨c, cs, rfl, fun hc => ?_⟩
      simp only [Part.follow, List.mem_cons, List.not_mem_nil, or_false] at hc
      rcases hc with rfl | rfl | rfl | rfl | rfl | rfl | rfl <;>
        exact absurd hnumber (not_numeral_cons (by decide))
  | nullName | trueName | falseName | text _ => exact ⟨_, _, rfl, by decide⟩
  | emptyArray _ | array _ _ | emptyObject _ | object _ _ => exact ⟨_, _, rfl, by decide⟩

theorem Reads.halts {json : Json} (h : Reads .value text json rest) : Halts (· ∈ blanks) text := by
  obtain ⟨c, cs, rfl, hc⟩ := h.head
  have hsub : blanks ⊆ Part.value.follow := by decide
  exact halts_cons (decide_eq_false fun hblank => hc (hsub hblank))

theorem Next.item_halts (h : Next Part.item.follow rest) : Halts (· ∈ blanks) rest :=
  h.halts (by decide)

/-- Brackets with nothing between them are not read as brackets around an item. -/
theorem Reads.not_close {json : Json} (h : Blanks text (']' :: rest)) :
    ¬ Reads .item text json rest' := by
  intro hitem
  cases hitem with
  | item hfront hvalue _ =>
    obtain rfl := h.unique hfront (halts_cons (by decide)) hvalue.halts
    obtain ⟨c, cs, heq, hc⟩ := hvalue.head
    obtain ⟨rfl, -⟩ := List.cons.inj heq
    exact hc (by decide)

theorem Reads.not_member_close {member : String × Json} (h : Blanks text ('\x7d' :: rest)) :
    ¬ Reads .member text member rest' := by
  intro hmember
  cases hmember with
  | member hfront _ _ _ =>
    exact absurd (h.cons_unique hfront (by decide) (by decide)).1 (by decide)

theorem Reads.items_next {jsons : List Json} (h : Reads .items text jsons rest)
    (hr : Next Part.items.follow rest) : Next Part.item.follow text := by
  cases h with
  | noItems => exact hr.mono (by decide)
  | items _ _ => exact next_cons (by decide)

theorem Reads.members_next {members : List (String × Json)} (h : Reads .members text members rest)
    (hr : Next Part.members.follow rest) : Next Part.member.follow text := by
  cases h with
  | noMembers => exact hr.mono (by decide)
  | members _ _ => exact next_cons (by decide)

/-- Induction on how the text is read; at every rule the characters that come next leave one way
to go on. -/
theorem Reads.unique {part : Part} {a b : part.Meaning} (h : Reads part text a rest)
    (h' : Reads part text b rest') (hr : Next part.follow rest) (hr' : Next part.follow rest') :
    a = b ∧ rest = rest' := by
  induction h generalizing rest' with
  | nullName | trueName | falseName =>
    cases h' with
    | number h' => exact absurd h' (not_numeral_cons (by decide))
    | _ => exact ⟨rfl, rfl⟩
  | number h heq =>
    cases h' with
    | number h' heq' =>
      obtain ⟨rfl, rfl, rfl⟩ := h.unique h' hr hr'
      exact ⟨congrArg Json.number (eq_of_scaled (heq.symm.trans heq')), rfl⟩
    | nullName | trueName | falseName | text _ => exact absurd h (not_numeral_cons (by decide))
    | emptyArray _ | array _ _ | emptyObject _ | object _ _ =>
      exact absurd h (not_numeral_cons (by decide))
  | text h =>
    cases h' with
    | text h' =>
      obtain ⟨hstring, rfl⟩ := h.unique h'
      exact ⟨congrArg Json.text (String.toList_inj.1 hstring), rfl⟩
    | number h' => exact absurd h' (not_numeral_cons (by decide))
  | emptyArray h =>
    cases h' with
    | emptyArray h' => exact ⟨rfl, (h.cons_unique h' (by decide) (by decide)).2⟩
    | array hfirst _ => exact absurd hfirst (not_close h)
    | number h' => exact absurd h' (not_numeral_cons (by decide))
  | array hfirst hothers ihfirst ihothers =>
    cases h' with
    | array hfirst' hothers' =>
      -- behind the first item there is a comma or the closing bracket
      have hclose : ∀ {cs}, Next Part.items.follow (']' :: cs) := next_cons (by decide)
      obtain ⟨rfl, rfl⟩ := ihfirst hfirst' (hothers.items_next hclose) (hothers'.items_next hclose)
      obtain ⟨rfl, heq⟩ := ihothers hothers' hclose hclose
      exact ⟨rfl, (List.cons.inj heq).2⟩
    | emptyArray h' => exact absurd hfirst (not_close h')
    | number h' => exact absurd h' (not_numeral_cons (by decide))
  | emptyObject h =>
    cases h' with
    | emptyObject h' => exact ⟨rfl, (h.cons_unique h' (by decide) (by decide)).2⟩
    | object hfirst _ => exact absurd hfirst (not_member_close h)
    | number h' => exact absurd h' (not_numeral_cons (by decide))
  | object hfirst hothers ihfirst ihothers =>
    cases h' with
    | object hfirst' hothers' =>
      have hclose : ∀ {cs}, Next Part.members.follow ('\x7d' :: cs) := next_cons (by decide)
      obtain ⟨rfl, rfl⟩ :=
        ihfirst hfirst' (hothers.members_next hclose) (hothers'.members_next hclose)
      obtain ⟨rfl, heq⟩ := ihothers hothers' hclose hclose
      exact ⟨rfl, (List.cons.inj heq).2⟩
    | emptyObject h' => exact absurd hfirst (not_member_close h')
    | number h' => exact absurd h' (not_numeral_cons (by decide))
  | item hfront hvalue hbehind ih =>
    cases h' with
    | item hfront' hvalue' hbehind' =>
      obtain rfl := hfront.unique hfront' hvalue.halts hvalue'.halts
      obtain ⟨rfl, rfl⟩ := ih hvalue' (hbehind.next hr) (hbehind'.next hr')
      exact ⟨rfl, hbehind.unique hbehind' hr.item_halts hr'.item_halts⟩
  | noItems =>
    cases h' with
    | noItems => exact ⟨rfl, rfl⟩
    | items _ _ => exact absurd (hr _ rfl) (by decide)
  | items hfirst hothers ihfirst ihothers =>
    cases h' with
    | noItems => exact absurd (hr' _ rfl) (by decide)
    | items hfirst' hothers' =>
      obtain ⟨rfl, rfl⟩ := ihfirst hfirst' (hothers.items_next hr) (hothers'.items_next hr')
      obtain ⟨rfl, rfl⟩ := ihothers hothers' hr hr'
      exact ⟨rfl, rfl⟩
  | member hfront hkey hcolon hvalue ih =>
    cases h' with
    | member hfront' hkey' hcolon' hvalue' =>
      obtain ⟨-, rfl⟩ := hfront.cons_unique hfront' (by decide) (by decide)
      obtain ⟨hname, rfl⟩ := hkey.unique hkey'
      obtain rfl := String.toList_inj.1 hname
      obtain ⟨-, rfl⟩ := hcolon.cons_unique hcolon' (by decide) (by decide)
      obtain ⟨rfl, rfl⟩ := ih hvalue' hr hr'
      exact ⟨rfl, rfl⟩
  | noMembers =>
    cases h' with
    | noMembers => exact ⟨rfl, rfl⟩
    | members _ _ => exact absurd (hr _ rfl) (by decide)
  | members hfirst hothers ihfirst ihothers =>
    cases h' with
    | noMembers => exact absurd (hr' _ rfl) (by decide)
    | members hfirst' hothers' =>
      obtain ⟨rfl, rfl⟩ := ihfirst hfirst' (hothers.members_next hr) (hothers'.members_next hr')
      obtain ⟨rfl, rfl⟩ := ihothers hothers' hr hr'
      exact ⟨rfl, rfl⟩

/-- A text spells one value at most. -/
theorem Spells.unique {text : String} {json json' : Json} (h : Spells text json)
    (h' : Spells text json') : json = json' :=
  (Reads.unique h h' next_nil next_nil).1

end

end Grammar
end Report
end SourceSplit
