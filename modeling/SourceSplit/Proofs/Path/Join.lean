import SourceSplit.Proofs.Path.Beside

/-!
# SourceSplit.Proofs.Path.Join

A name looked up in a directory. Its path has the segments of the directory, but for an empty one
that stands for a slash at the end, and the name behind them (`exists_segments_join`).
-/

namespace SourceSplit
namespace Path

variable {dir : Path} {name : String}

theorem exists_segments_join (hne : dir.text ≠ "") (hname : '/' ∉ name.toList) :
    ∃ front idle, dir.segments = front ++ idle ∧ (idle = [] ∨ idle = [[]]) ∧ front ≠ [] ∧
      (dir.join name).segments = front ++ [name.toList] := by
  have hempty : dir.text.isEmpty = false := by
    rw [← Bool.not_eq_true, String.isEmpty_iff]
    exact hne
  have habs := not_isAbsolute_of_no_slash hname
  by_cases hend : dir.text.toList.getLast? = some '/'
  · obtain ⟨front, hfront⟩ := List.getLast?_eq_some_iff.1 hend
    refine ⟨cutAtSlash front, [[]], ?_, .inr rfl, cutAtSlash_ne_nil _, ?_⟩
    · rw [segments, hfront, cutAtSlash_append_slash]
      rfl
    · simp only [join, habs, hempty, hend, Bool.false_eq_true, if_false, decide_true, Bool.or_true,
        if_true]
      rw [segments, String.toList_append, hfront, List.append_assoc, List.singleton_append,
        cutAtSlash_append_slash, cutAtSlash_of_not_mem hname]
  · refine ⟨dir.segments, [], (List.append_nil _).symm, .inl rfl, cutAtSlash_ne_nil _, ?_⟩
    simp only [join, habs, hempty, hend, Bool.false_eq_true, if_false, decide_false, Bool.or_self]
    rw [segments, String.toList_append, String.toList_append, show "/".toList = ['/'] from rfl,
      List.append_assoc, List.singleton_append, cutAtSlash_append_slash,
      cutAtSlash_of_not_mem hname, segments]

/-- A name that is looked up in a directory starts where the directory does. -/
theorem isAbsolute_join (hne : dir.text ≠ "") (hname : '/' ∉ name.toList) :
    (dir.join name).isAbsolute = dir.isAbsolute := by
  obtain ⟨front, idle, hdir, _, hfront, hjoin⟩ := exists_segments_join hne hname
  cases front with
  | nil => exact absurd rfl hfront
  | cons first front =>
    rw [List.cons_append] at hdir hjoin
    rw [isAbsolute_of_segments hdir, isAbsolute_of_segments hjoin]
    by_cases hfirst : first = []
    · have hrest : front ++ idle ≠ [] := by
        intro hnil
        apply hne
        rw [← ofSegments_segments dir, hdir, hnil, hfirst]
        rfl
      have h1 : (front ++ idle).isEmpty = false := by simpa using hrest
      have h2 : (front ++ [name.toList]).isEmpty = false := by simp
      rw [h1, h2]
    · have : first.isEmpty = false := by simpa using hfirst
      rw [this, Bool.false_and, Bool.false_and]

end Path
end SourceSplit
