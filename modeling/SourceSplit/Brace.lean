import SourceSplit.Text.Offset

/-!
# SourceSplit.Brace

Where the brace structure that begins at a byte offset closes. Braces count only in code: inside
a string literal (double quotes, a backslash takes the byte after it along) and inside a block
comment they are text. Every byte with a meaning here is ASCII, so the walk may go byte by byte
through UTF-8.
-/

namespace SourceSplit
namespace Brace

open Text

/-- What a byte means to the walk. -/
inductive Mark where
  | slash
  | star
  | quote
  | backslash
  | opening
  | closing
  | other
  deriving DecidableEq, Repr

def Mark.ofByte (b : UInt8) : Mark :=
  if b = 0x2F then .slash
  else if b = 0x2A then .star
  else if b = 0x22 then .quote
  else if b = 0x5C then .backslash
  else if b = 0x7B then .opening
  else if b = 0x7D then .closing
  else .other

inductive Mode where
  | code
  | string (escaped : Bool)
  | comment
  deriving DecidableEq, Repr

/-- How a walk ends: at the brace that closes, at a closing brace with nothing open, or with the
text. -/
inductive Ending where
  | closed (offset : Nat)
  | unmatched (offset : Nat)
  | unfinished (depth : Nat)
  deriving DecidableEq, Repr

/-- The walk over the marks from `offset` on, with `depth` braces open. The two bytes that open a
comment are taken together, so the star of the opener is not one of a closer. -/
def walk : Mode → (depth offset : Nat) → List Mark → Ending
  | _, depth, _, [] => .unfinished depth
  | .code, depth, offset, .slash :: .star :: rest => walk .comment depth (offset + 2) rest
  | .code, depth, offset, .quote :: rest => walk (.string false) depth (offset + 1) rest
  | .code, depth, offset, .opening :: rest => walk .code (depth + 1) (offset + 1) rest
  | .code, 0, offset, .closing :: _ => .unmatched offset
  | .code, 1, offset, .closing :: _ => .closed offset
  | .code, depth + 2, offset, .closing :: rest => walk .code (depth + 1) (offset + 1) rest
  | .code, depth, offset, _ :: rest => walk .code depth (offset + 1) rest
  | .string true, depth, offset, _ :: rest => walk (.string false) depth (offset + 1) rest
  | .string false, depth, offset, .backslash :: rest =>
    walk (.string true) depth (offset + 1) rest
  | .string false, depth, offset, .quote :: rest => walk .code depth (offset + 1) rest
  | .string false, depth, offset, _ :: rest => walk (.string false) depth (offset + 1) rest
  | .comment, depth, offset, .star :: .slash :: rest => walk .code depth (offset + 2) rest
  | .comment, depth, offset, _ :: rest => walk .comment depth (offset + 1) rest

@[simp] theorem walk_nil (mode : Mode) (depth offset : Nat) :
    walk mode depth offset [] = .unfinished depth := by
  rw [walk]

inductive Fault where
  | startOutside (start length : Nat)
  | unmatchedClose (offset : Nat)
  | unterminated (start depth : Nat)
  deriving DecidableEq, Repr

def Fault.message : Fault → String
  | .startOutside start length =>
    s!"start offset {start} is outside the document ({length} bytes)"
  | .unmatchedClose offset => s!"unmatched closing brace at offset {offset}"
  | .unterminated start depth =>
    s!"braces opened at offset {start} never close (depth {depth} at end of input)"

def Ending.toExcept (start : Nat) : Ending → Except Fault Nat
  | .closed offset => .ok offset
  | .unmatched offset => .error (.unmatchedClose offset)
  | .unfinished depth => .error (.unterminated start depth)

def marks (text : String) : List Mark :=
  (bytes text.toList).map Mark.ofByte

/-- The offset of the `\x7d` that closes the brace structure beginning at byte `start`. -/
def closingOffset (text : String) (start : Nat) : Except Fault Nat :=
  if start < byteLength text.toList then
    (walk .code 0 start ((marks text).drop start)).toExcept start
  else
    .error (.startOutside start (byteLength text.toList))

end Brace
end SourceSplit
