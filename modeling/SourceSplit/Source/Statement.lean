import SourceSplit.Source.Piece

/-!
# SourceSplit.Source.Statement

Statements that open with a keyword and run to the next semicolon, such as `package a.b;`. They
are found in the raw text, comments and strings included: a keyword counts where no word
character stands directly before it. The search goes on behind the semicolon, so the statements
found do not overlap.
-/

namespace SourceSplit
namespace Source

open Text

/-- The statement of `keyword` that starts a text: what stands between keyword and semicolon, and
the text behind the semicolon. A blank must follow the keyword, and at least one more character
must stand before the semicolon. -/
def statement? (keyword : String) (cs : List Char) : Option (List Char × List Char) :=
  match Piece.literal keyword cs with
  | some (_, blank :: rest) =>
    match rest.takeWhile (· ≠ ';'), rest.dropWhile (· ≠ ';') with
    | c :: body, _ :: behind =>
      if isBlank blank then some (blank :: c :: body, behind) else none
    | _, _ => none
  | _ => none

theorem eq_of_statement? {keyword : String} {cs body rest : List Char}
    (h : statement? keyword cs = some (body, rest)) :
    ∃ d, cs = keyword.toList ++ (body ++ d :: rest) := by
  simp only [statement?] at h
  split at h
  · rename_i word blank r hl
    obtain ⟨rfl, hcs⟩ := Piece.literal_eq_some_iff.1 hl
    split at h
    · rename_i c b d e ht hd
      split at h
      · simp only [Option.some.injEq, Prod.mk.injEq] at h
        obtain ⟨rfl, rfl⟩ := h
        refine ⟨d, ?_⟩
        rw [hcs]
        have := List.takeWhile_append_dropWhile (p := fun x => decide (x ≠ ';')) (l := r)
        rw [ht, hd] at this
        simp [← this]
      · cases h
    · cases h
  · cases h

theorem length_of_statement? {keyword : String} {cs body rest : List Char}
    (h : statement? keyword cs = some (body, rest)) : rest.length < cs.length := by
  obtain ⟨d, rfl⟩ := eq_of_statement? h
  simp only [List.length_append, List.length_cons]
  omega

/-- The statements of `keyword` in a text, each as what stands between keyword and semicolon.
`inWord` says whether a word character stands directly before the text. -/
def statementsFrom (keyword : String) (inWord : Bool) (cs : List Char) : List (List Char) :=
  match cs with
  | [] => []
  | c :: rest =>
    match inWord, _h : statement? keyword (c :: rest) with
    | false, some (body, behind) => body :: statementsFrom keyword false behind
    | _, _ => statementsFrom keyword (isWord c) rest
termination_by cs.length
decreasing_by
  · have := length_of_statement? _h
    simpa using this
  · simp

def statements (keyword text : String) : List (List Char) :=
  statementsFrom keyword false text.toList

/-- The name in the first package statement. -/
def packageName? (text : String) : Option String :=
  (statements "package" text).head?.map fun body => String.ofList (trim body)

/-- Every import statement, in text order. -/
def imports (text : String) : List String :=
  (statements "import" text).map fun body => String.ofList ("import".toList ++ body ++ [';'])

end Source
end SourceSplit
