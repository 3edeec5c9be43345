import SourceSplit.Source.Piece
import SourceSplit.Text.Offset

/-!
# SourceSplit.Source.Header

Headers of documented public classes: a doc comment, `public class` and a name, and all that
stands before the brace that opens the body. Headers are found in the raw text, one after the
other; the search goes on behind the brace.
-/

namespace SourceSplit
namespace Source

open Text

/-- The text up to and with the first `*` `/`. -/
def throughClose : (before : List Char) → List Char → Option (List Char × List Char)
  | _, [] => none
  | before, '*' :: '/' :: rest => some (before.reverse ++ ['*', '/'], rest)
  | before, c :: rest => throughClose (c :: before) rest

theorem exact_throughClose {before cs part rest : List Char}
    (h : throughClose before cs = some (part, rest)) : before.reverse ++ cs = part ++ rest := by
  fun_induction throughClose before cs with
  | case1 => cases h
  | case2 before rest' =>
    simp only [Option.some.injEq, Prod.mk.injEq] at h
    obtain ⟨rfl, rfl⟩ := h
    simp
  | case3 before c rest' _ ih =>
    rw [← ih h]
    simp

def comment : Piece :=
  Piece.andThen (Piece.literal "/**") (throughClose [])

/-- All of a header before the class name. -/
def opening : Piece :=
  comment.andThen <| (Piece.many isBlank).andThen <|
    (Piece.literal "public").andThen <| (Piece.some1 isBlank).andThen <|
      (Piece.literal "class").andThen <| Piece.some1 isBlank

theorem exact_opening : Piece.Exact opening := by
  have hc : Piece.Exact comment :=
    Piece.exact_andThen (Piece.exact_literal _) fun _ _ _ h => by simpa using exact_throughClose h
  exact Piece.exact_andThen hc <| Piece.exact_andThen (Piece.exact_many _) <|
    Piece.exact_andThen (Piece.exact_literal _) <| Piece.exact_andThen (Piece.exact_some1 _) <|
      Piece.exact_andThen (Piece.exact_literal _) (Piece.exact_some1 _)

/-- A header at the start of a text: the class name, the text of the header, and what stands
behind the brace. -/
structure FoundHeader where
  name : List Char
  text : List Char
  rest : List Char

def header? (cs : List Char) : Option FoundHeader :=
  match opening cs with
  | none => none
  | some (before, rest) =>
    match Piece.some1 isWord rest with
    | none => none
    | some (name, rest) =>
      match rest.dropWhile (· ≠ '\x7b') with
      | [] => none
      | _ :: behind => some ⟨name, before ++ name ++ rest.takeWhile (· ≠ '\x7b'), behind⟩

theorem eq_of_header? {cs : List Char} {found : FoundHeader} (h : header? cs = some found) :
    cs = found.text ++ '\x7b' :: found.rest := by
  simp only [header?] at h
  split at h
  · cases h
  · rename_i before r1 ho
    split at h
    · cases h
    · rename_i name r2 hn
      split at h
      · cases h
      · rename_i d behind hd
        simp only [Option.some.injEq] at h
        subst h
        have hbrace : d = '\x7b' := by
          have := List.head?_dropWhile_not (fun x => decide (x ≠ '\x7b')) r2
          rw [hd] at this
          simpa using this
        subst hbrace
        have := List.takeWhile_append_dropWhile (p := fun x => decide (x ≠ '\x7b')) (l := r2)
        rw [hd] at this
        rw [exact_opening _ _ _ ho, Piece.exact_some1 _ _ _ _ hn, List.append_assoc,
          List.append_assoc, List.append_assoc, this]

theorem length_of_header? {cs : List Char} {found : FoundHeader} (h : header? cs = some found) :
    found.rest.length < cs.length := by
  rw [eq_of_header? h]
  simp only [List.length_append, List.length_cons]
  omega

/-- Where a class header stands: the byte offsets of its doc comment and of its brace. -/
structure Header where
  name : String
  start : Nat
  brace : Nat
  deriving DecidableEq, Repr

/-- The headers in a text that begins at byte `offset` of its document. -/
def headersFrom (offset : Nat) (cs : List Char) : List Header :=
  match cs with
  | [] => []
  | c :: rest =>
    match _h : header? (c :: rest) with
    | some found =>
      let brace := offset + byteLength found.text
      ⟨String.ofList found.name, offset, brace⟩ :: headersFrom (brace + 1) found.rest
    | none => headersFrom (offset + c.utf8Size) rest
termination_by cs.length
decreasing_by
  · exact length_of_header? _h
  · simp

def headers (text : String) : List Header :=
  headersFrom 0 text.toList

end Source
end SourceSplit
