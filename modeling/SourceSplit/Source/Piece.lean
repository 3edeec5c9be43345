import SourceSplit.Text.Word

/-!
# SourceSplit.Source.Piece

Pieces of a source text. A piece takes a part off the start of a text, or does not fit; pieces are
put together by `andThen`. `Exact p` says that `p` loses nothing: the part and the rest together
are the text.
-/

namespace SourceSplit
namespace Source

open Text

abbrev Piece := List Char → Option (List Char × List Char)

namespace Piece

def Exact (p : Piece) : Prop :=
  ∀ cs part rest, p cs = some (part, rest) → cs = part ++ rest

def literal (word : String) : Piece :=
  fun cs =>
    if word.toList.isPrefixOf cs then some (word.toList, cs.drop word.toList.length) else none

/-- The longest run of characters of a class, possibly empty. -/
def many (p : Char → Bool) : Piece :=
  fun cs => some (cs.takeWhile p, cs.dropWhile p)

/-- The longest run of characters of a class, which must not be empty. -/
def some1 (p : Char → Bool) : Piece :=
  fun cs => if (cs.takeWhile p).isEmpty then none else many p cs

def andThen (p q : Piece) : Piece :=
  fun cs =>
    match p cs with
    | none => none
    | some (a, rest) => (q rest).map fun (b, rest) => (a ++ b, rest)

theorem literal_eq_some_iff {word : String} {cs part rest : List Char} :
    literal word cs = some (part, rest) ↔ part = word.toList ∧ cs = word.toList ++ rest := by
  simp only [literal, List.isPrefixOf_iff_prefix, Option.ite_none_right_eq_some,
    Option.some.injEq, Prod.mk.injEq]
  constructor
  · rintro ⟨hword, rfl, rfl⟩
    exact ⟨rfl, (List.prefix_iff_eq_append.1 hword).symm⟩
  · rintro ⟨rfl, rfl⟩
    exact ⟨List.prefix_append _ _, rfl, List.drop_left⟩

theorem exact_literal (word : String) : Exact (literal word) := by
  intro cs part rest h
  obtain ⟨rfl, hcs⟩ := literal_eq_some_iff.1 h
  exact hcs

theorem exact_many (p : Char → Bool) : Exact (many p) := by
  intro cs part rest h
  simp only [many, Option.some.injEq, Prod.mk.injEq] at h
  obtain ⟨rfl, rfl⟩ := h
  exact List.takeWhile_append_dropWhile.symm

theorem exact_some1 (p : Char → Bool) : Exact (some1 p) := by
  intro cs part rest h
  simp only [some1] at h
  split at h
  · cases h
  · exact exact_many p _ _ _ h

theorem exact_andThen {p q : Piece} (hp : Exact p) (hq : Exact q) : Exact (andThen p q) := by
  intro cs part rest h
  simp only [andThen] at h
  split at h
  · cases h
  · rename_i a r ha
    simp only [Option.map_eq_some_iff, Prod.mk.injEq] at h
    obtain ⟨⟨b, r'⟩, hb, rfl, rfl⟩ := h
    rw [hp _ _ _ ha, hq _ _ _ hb, List.append_assoc]

theorem length_le {p : Piece} (hp : Exact p) {cs part rest : List Char}
    (h : p cs = some (part, rest)) : rest.length ≤ cs.length := by
  rw [hp _ _ _ h]
  simp

end Piece
end Source
end SourceSplit
