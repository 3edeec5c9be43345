import SourceSplit.Proofs.Path.Join

/-!
# SourceSplit.Proofs.Path.Parent

Paths against their parents. A path has the parts of its parent and one more (`parent?_cases`), and
a name looked up in a parent has that parent again (`Whole.parent?_join`). So the siblings of any
path stand in one directory under their own names (`parent?_sibling`, `fileName?_sibling`): two of
them are the same by spelling just when their names are (`sibling_same_iff`), and one is the path
itself just when it has its file name (`sibling_same_self_iff`).
-/

namespace SourceSplit
namespace Path

/-! ## Parts of leading segments -/

theorem segments_ne_of_text {path : Path} (h : path.text ≠ "") : path.segments ≠ [[]] := by
  intro hs
  apply h
  rw [← ofSegments_segments path, hs]
  rfl

theorem parts_eq_lead {path : Path} (h : path.segments ≠ [[]]) :
    path.parts = lead path.segments := by
  cases hs : path.segments with
  | nil => exact absurd hs (cutAtSlash_ne_nil _)
  | cons first rest =>
    simp only [parts, hs, lead]
    cases first with
    | cons c cs => rfl
    | nil =>
      have hrest : rest ≠ [] := by
        rintro rfl
        exact h hs
      rw [List.isEmpty_eq_false_iff.2 hrest]
      rfl

theorem lead_dropIdleEnd (first : Segment) (rest : List Segment) :
    lead (first :: dropIdleEnd rest) = lead (first :: rest) := by
  obtain ⟨idle, hrest, hidle⟩ := exists_idle_end rest
  have hlead : lead (first :: dropIdleEnd rest ++ idle) = lead (first :: dropIdleEnd rest) :=
    lead_append_idle hidle (by simp)
  rw [List.cons_append, ← hrest] at hlead
  exact hlead.symm

theorem segments_ofSegments_of_subset {path : Path} {kept : List Segment} (hne : kept ≠ [])
    (h : kept ⊆ path.segments) : (ofSegments kept).segments = kept :=
  segments_ofSegments hne fun _ hs => slash_not_mem_of_mem_cutAtSlash (h hs)

theorem exists_ofSegment? {segment : Segment} (h : isIdle segment = false) :
    ∃ part, Part.ofSegment? segment = some part := by
  rw [Part.ofSegment?, if_neg (by simp [h])]
  split
  · exact ⟨_, rfl⟩
  · exact ⟨_, rfl⟩

/-! ## Parents -/

theorem dropIdleEnd_dropIdleEnd (segments : List Segment) :
    dropIdleEnd (dropIdleEnd segments) = dropIdleEnd segments := by
  rcases dropIdleEnd_eq_nil_or segments with h | ⟨front, last, h, hlast⟩
  · rw [h]
    rfl
  · rw [h, dropIdleEnd_concat front hlast]

/-- A path that ends with a segment that says something, as parents do. -/
inductive Whole : Path → Prop where
  | empty : Whole ⟨""⟩
  | root : Whole ⟨"/"⟩
  | segments {path : Path} {first : Segment} {kept : List Segment} :
      path.segments = first :: kept → dropIdleEnd kept = kept → (first ≠ [] ∨ kept ≠ []) →
      Whole path

theorem exists_last {first : Segment} {kept : List Segment} (hkept : dropIdleEnd kept = kept)
    (hne : first ≠ [] ∨ kept ≠ []) : ∃ front z, first :: kept = front ++ [z] ∧ z ≠ [] := by
  rcases dropIdleEnd_eq_nil_or kept with hnil | ⟨front, z, hfront, hidle⟩
  · rw [hkept] at hnil
    exact ⟨[], first, by rw [hnil, List.nil_append], hne.elim id (absurd hnil)⟩
  · rw [hkept] at hfront
    refine ⟨first :: front, z, by rw [hfront, List.cons_append], ?_⟩
    rintro rfl
    cases hidle

section Equations

variable {path : Path} {first last : Segment} {rest front idle : List Segment}

theorem parent?_of_idle (h : path.segments = first :: rest) (hrest : dropIdleEnd rest = []) :
    path.parent? = if first.isEmpty then none else some ⟨""⟩ := by
  simp [parent?, h, hrest]

theorem parent?_of_concat (h : path.segments = first :: rest)
    (hrest : dropIdleEnd rest = front ++ [last]) :
    path.parent? =
      if first.isEmpty && (dropIdleEnd front).isEmpty then some ⟨"/"⟩
      else some (ofSegments (first :: dropIdleEnd front)) := by
  simp [parent?, h, hrest]

theorem parts_of_idle (h : path.segments = first :: rest) (hrest : dropIdleEnd rest = []) :
    path.parts =
      if first = ['.'] then [.here] else if first.isEmpty && !rest.isEmpty then [.root]
      else (Part.ofSegment? first).toList := by
  obtain ⟨idle, hidle, hall⟩ := exists_idle_end rest
  rw [hrest, List.nil_append] at hidle
  rw [← hidle] at hall
  simp only [parts, h, filterMap_idle hall, List.append_nil]

theorem segments_kept (h : path.segments = (first :: front) ++ last :: idle) :
    (ofSegments (first :: dropIdleEnd front)).segments = first :: dropIdleEnd front := by
  have hsubset : first :: dropIdleEnd front ⊆ path.segments := by
    rw [h]
    exact List.Subset.trans (List.cons_subset_cons first (dropIdleEnd_isPrefix front).subset)
      (List.subset_append_left _ _)
  exact segments_ofSegments_of_subset (by simp) hsubset

theorem exists_parent_of_concat (h : path.segments = first :: rest)
    (hrest : dropIdleEnd rest = front ++ [last]) (hlast : isIdle last = false) :
    ∃ dir part, path.parent? = some dir ∧ Whole dir ∧ path.parts = dir.parts ++ [part] := by
  have hparent := parent?_of_concat h hrest
  obtain ⟨part, hpart⟩ := exists_ofSegment? hlast
  obtain ⟨idle, hidle, hall⟩ := exists_idle_end rest
  have hsegments : path.segments = (first :: front) ++ last :: idle := by
    rw [h, hidle, hrest]
    simp
  have hparts : path.parts = lead (first :: dropIdleEnd front) ++ [part] := by
    rw [parts_concat_append hsegments hlast, hpart, filterMap_idle hall, lead_dropIdleEnd]
    simp
  by_cases hroot : (first.isEmpty && (dropIdleEnd front).isEmpty) = true
  · rw [if_pos hroot] at hparent
    rw [Bool.and_eq_true, List.isEmpty_iff, List.isEmpty_iff] at hroot
    rw [hroot.1, hroot.2] at hparts
    exact ⟨⟨"/"⟩, part, hparent, .root, hparts⟩
  · rw [if_neg hroot] at hparent
    have hdir := segments_kept hsegments
    have hne : first ≠ [] ∨ dropIdleEnd front ≠ [] := by
      rw [Bool.and_eq_true, List.isEmpty_iff, List.isEmpty_iff] at hroot
      exact Decidable.not_and_iff_or_not.1 hroot
    have hnot : first :: dropIdleEnd front ≠ [[]] := by
      intro hnil
      obtain ⟨rfl, hkept⟩ := List.cons.inj hnil
      exact hne.elim (absurd rfl) (absurd hkept)
    refine ⟨_, part, hparent, .segments hdir (dropIdleEnd_dropIdleEnd front) hne, ?_⟩
    rw [hparts, parts_eq_lead (by rwa [hdir]), hdir]

theorem exists_parent_of_idle (h : path.segments = first :: rest) (hrest : dropIdleEnd rest = [])
    (hfirst : first ≠ []) :
    ∃ dir part, path.parent? = some dir ∧ Whole dir ∧ path.parts = dir.parts ++ [part] := by
  have hempty := List.isEmpty_eq_false_iff.2 hfirst
  have hparent := parent?_of_idle h hrest
  have hparts := parts_of_idle h hrest
  rw [hempty] at hparent hparts
  by_cases hdot : first = ['.']
  · exact ⟨⟨""⟩, .here, hparent, .empty, by rw [hparts, if_pos hdot]; rfl⟩
  · have hidle : isIdle first = false := by simp [isIdle, hempty, hdot]
    obtain ⟨part, hpart⟩ := exists_ofSegment? hidle
    exact ⟨⟨""⟩, part, hparent, .empty, by rw [hparts, if_neg hdot, hpart]; rfl⟩

end Equations

/-- A path without a parent has no part, or is the root. A path with a parent has one part more than
its parent. -/
theorem parent?_cases (path : Path) :
    path.parent? = none ∧ (path.parts = [] ∨ path.parts = [.root]) ∨
      ∃ dir part, path.parent? = some dir ∧ Whole dir ∧ path.parts = dir.parts ++ [part] := by
  cases hs : path.segments with
  | nil => exact absurd hs (cutAtSlash_ne_nil _)
  | cons first rest =>
    rcases dropIdleEnd_eq_nil_or rest with hrest | ⟨front, last, hrest, hlast⟩
    · by_cases hfirst : first = []
      · subst hfirst
        refine .inl ⟨parent?_of_idle hs hrest, ?_⟩
        rw [parts_of_idle hs hrest]
        cases rest with
        | nil => exact .inl rfl
        | cons _ _ => exact .inr rfl
      · exact .inr (exists_parent_of_idle hs hrest hfirst)
    · exact .inr (exists_parent_of_concat hs hrest hlast)

/-! ## Names looked up in a parent -/

section Join

variable {dir : Path} {name : String}

theorem join_empty (hslash : '/' ∉ name.toList) : join ⟨""⟩ name = ⟨name⟩ := by
  rw [join, not_isAbsolute_of_no_slash hslash, if_neg (by simp), if_pos (by simp),
    String.empty_append]

theorem parts_join (hslash : '/' ∉ name.toList) (hname : Names name.toList) :
    (dir.join name).parts = dir.parts ++ [.name name] := by
  have hpart : (Part.ofSegment? name.toList).toList = [.name name] := by
    rw [hname.ofSegment?, String.ofList_toList]
    rfl
  by_cases hdir : dir.text = ""
  · obtain rfl : dir = ⟨""⟩ := by rw [← hdir]
    have hsegments : (join ⟨""⟩ name).segments = [] ++ [name.toList] := by
      rw [join_empty hslash, segments_of_no_slash hslash, List.nil_append]
    rw [parts_concat hsegments hname.not_idle, hpart]
    rfl
  · obtain ⟨front, idle, hsegments, hidle, hfront, hjoin⟩ := exists_segments_join hdir hslash
    have hall : ∀ s ∈ idle, isIdle s = true := by
      rcases hidle with rfl | rfl
      · exact List.forall_mem_nil _
      · exact List.forall_mem_singleton.2 rfl
    rw [parts_concat hjoin hname.not_idle, hpart, parts_eq_lead (segments_ne_of_text hdir),
      hsegments, lead_append_idle hall fun h => absurd h hfront]

/-- A name looked up in a parent has that parent again. -/
theorem Whole.parent?_join (h : Whole dir) (hslash : '/' ∉ name.toList)
    (hname : Names name.toList) : (dir.join name).parent? = some dir := by
  have hend : ∀ kept, dropIdleEnd (kept ++ [name.toList]) = kept ++ [name.toList] :=
    fun kept => dropIdleEnd_concat kept hname.not_idle
  cases h with
  | empty =>
    have hne : name.toList.isEmpty = false := by
      have hidle := hname.not_idle
      rw [isIdle, Bool.or_eq_false_iff] at hidle
      exact hidle.1
    rw [join_empty hslash, parent?_of_idle (segments_of_no_slash hslash) rfl, hne]
    rfl
  | root =>
    have hsegments : (join ⟨"/"⟩ name).segments = [] :: ([] ++ [name.toList]) := by
      have hjoin : join ⟨"/"⟩ name = ⟨"/" ++ name⟩ := by
        rw [join, not_isAbsolute_of_no_slash hslash, if_neg (by simp), if_pos (by decide)]
      rw [hjoin, Path.segments, String.toList_append]
      exact (cutAtSlash_append_slash [] name.toList).trans
        (congrArg _ (cutAtSlash_of_not_mem hslash))
    rw [parent?_of_concat hsegments (hend [])]
    rfl
  | @segments _ first kept hsegments hkept hne =>
    obtain ⟨front, z, hlast, hz⟩ := exists_last hkept hne
    have hjoin := segments_join hslash (hsegments.trans hlast) hz
    rw [hsegments, List.cons_append] at hjoin
    have hnot : ¬ (first.isEmpty && kept.isEmpty) = true := by
      rw [Bool.and_eq_true, List.isEmpty_iff, List.isEmpty_iff]
      exact fun hnil => hne.elim (absurd hnil.1) (absurd hnil.2)
    rw [parent?_of_concat hjoin (hend kept), hkept, if_neg hnot, ← hsegments, ofSegments_segments]

end Join

/-! ## Siblings of any path -/

/-- Where the siblings of a path stand: in its parent, or at the empty path if it has none. -/
def directory (path : Path) : Path :=
  path.parent?.getD ⟨""⟩

theorem whole_directory (path : Path) : Whole path.directory := by
  rcases parent?_cases path with ⟨hnone, _⟩ | ⟨dir, _, hsome, hwhole, _⟩
  · rw [directory, hnone]
    exact .empty
  · rw [directory, hsome]
    exact hwhole

theorem fileName?_eq_some_iff {path : Path} {name : String} :
    path.fileName? = some name ↔ path.parts.getLast? = some (.name name) := by
  unfold fileName?
  split
  · rename_i hlast
    rw [hlast]
    simp
  · rename_i hother
    constructor
    · rintro ⟨⟩
    · exact fun h => absurd h (hother name)

/-- A path with a file name stands under that name in its directory. -/
theorem parts_of_fileName? {path : Path} {name : String} (h : path.fileName? = some name) :
    path.parts = path.directory.parts ++ [.name name] := by
  rw [fileName?_eq_some_iff] at h
  rcases parent?_cases path with ⟨_, hparts | hparts⟩ | ⟨dir, part, hsome, _, hparts⟩
  · rw [hparts] at h
    cases h
  · rw [hparts] at h
    cases h
  · rw [hparts, List.getLast?_concat, Option.some.injEq] at h
    rw [hparts, directory, hsome, h]
    rfl

section Siblings

variable {path : Path} {stem extension : String}

theorem sibling_eq_join (hslash : '/' ∉ (stem ++ "." ++ extension).toList) :
    path.sibling stem extension = path.directory.join (stem ++ "." ++ extension) := by
  unfold sibling directory
  cases path.parent? with
  | none => exact (join_empty hslash).symm
  | some dir => rfl

variable (hslash : '/' ∉ (stem ++ "." ++ extension).toList)
  (hname : Names (stem ++ "." ++ extension).toList)

include hslash hname

theorem parts_sibling_eq : (path.sibling stem extension).parts =
    path.directory.parts ++ [.name (stem ++ "." ++ extension)] := by
  rw [sibling_eq_join hslash, parts_join hslash hname]

theorem parent?_sibling : (path.sibling stem extension).parent? = some path.directory := by
  rw [sibling_eq_join hslash, path.whole_directory.parent?_join hslash hname]

theorem fileName?_sibling :
    (path.sibling stem extension).fileName? = some (stem ++ "." ++ extension) := by
  rw [fileName?_eq_some_iff, parts_sibling_eq hslash hname, List.getLast?_concat]

/-- A sibling is the path itself just when it has its file name. -/
theorem sibling_same_self_iff : (path.sibling stem extension).same path = true ↔
    path.fileName? = some (stem ++ "." ++ extension) := by
  rw [same, decide_eq_true_eq]
  constructor
  · intro h
    rw [fileName?_eq_some_iff, ← h, ← fileName?_eq_some_iff]
    exact fileName?_sibling hslash hname
  · intro h
    rw [parts_sibling_eq hslash hname, parts_of_fileName? h]

/-- Two siblings are the same by spelling just when their names are. -/
theorem sibling_same_iff {stem' : String}
    (hslash' : '/' ∉ (stem' ++ "." ++ extension).toList)
    (hname' : Names (stem' ++ "." ++ extension).toList) :
    (path.sibling stem extension).same (path.sibling stem' extension) = true ↔
      stem ++ "." ++ extension = stem' ++ "." ++ extension := by
  rw [same, decide_eq_true_eq, parts_sibling_eq hslash hname, parts_sibling_eq hslash' hname']
  simp

end Siblings

end Path
end SourceSplit
