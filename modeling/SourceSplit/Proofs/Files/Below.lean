import SourceSplit.Proofs.Files.Walk
import SourceSplit.Proofs.Path.Order

/-!
# SourceSplit.Proofs.Files.Below

The files below a directory, in any tree, symbolic links and loops included. `Inside` says which
directories a walk may be inside of, by what stands in the tree and without walking it, and
`FileBelow` which files are found there; the walk visits just these (`file_mem_walk_iff`), in the
order of their paths (`walk_ordered`), although it sorts nothing but the names of one directory.
-/

namespace SourceSplit
namespace Files

/-- The directories from `root` down to one below it, this one first, each with the path it is
reached by. A link is followed to a directory unless that is one of those above the link. -/
inductive Inside (tree : Tree) (root : Path) : List Level → Prop where
  | root {place : Place} : status tree root = .ok (.directory place) →
      Inside tree root [⟨root, place⟩]
  | directory {level : Level} {above : List Level} {name : String} {spot : Spot} :
      Inside tree root (level :: above) →
      tree.get? (name :: level.place) = some .directory →
      status tree (level.path.join name) = .ok spot →
      Inside tree root (⟨level.path.join name, name :: level.place⟩ :: level :: above)
  | link {level : Level} {above : List Level} {name target : String} {place : Place} :
      Inside tree root (level :: above) →
      tree.get? (name :: level.place) = some (.link target) →
      status tree (level.path.join name) = .ok (.directory place) →
      (∀ upper ∈ level :: above, upper.place ≠ place) →
      Inside tree root (⟨level.path.join name, place⟩ :: level :: above)

/-- The entry is a file, or a link and its path leads to a file. -/
def IsFileAt (tree : Tree) (path : Path) (place : Place) : Prop :=
  (∃ content, tree.get? place = some (.file content)) ∨
    ∃ target last content, tree.get? place = some (.link target) ∧
      status tree path = .ok (.file last content)

/-- A file in one of the directories below `root`, or in `root` itself. -/
def FileBelow (tree : Tree) (root path : Path) : Prop :=
  ∃ level above name, Inside tree root (level :: above) ∧ path = level.path.join name ∧
    IsFileAt tree path (name :: level.place)

/-- The visits to what one name names in a directory. -/
def visitsOf (tree : Tree) (above : List Level) (path : Path) (place : Place) (name : String) :
    List Visit :=
  match tree.get? (name :: place) with
  | none => []
  | some (.file _) => [.file (path.join name)]
  | some .directory =>
    match status tree (path.join name) with
    | .error fault => [.problem (.io (path.join name) fault)]
    | .ok _ =>
      walkNames tree (⟨path.join name, name :: place⟩ :: above) (path.join name) (name :: place)
        (tree.names (name :: place))
  | some (.link _) =>
    match status tree (path.join name) with
    | .error fault => [.problem (.io (path.join name) fault)]
    | .ok (.file _ _) => [.file (path.join name)]
    | .ok (.free _) => []
    | .ok (.directory target) =>
      match above.find? (·.place = target) with
      | some level => [.problem (.loop (path.join name) level.path)]
      | none =>
        walkNames tree (⟨path.join name, target⟩ :: above) (path.join name) target
          (tree.names target)

section

variable {tree : Tree} {root path file : Path} {place : Place} {above : List Level} {level : Level}
  {name : String} {names : List String} {visit : Visit}

theorem walkNames_cons : walkNames tree above path place (name :: names) =
    visitsOf tree above path place name ++ walkNames tree above path place names := by
  rw [walkNames]
  congr 1
  unfold visitsOf
  split
  · simp only [*]
  · simp only [*]
  · split
    · simp only [*]
    · simp only [*]
  · split
    · simp only [*]
    · simp only [*]
    · simp only [*]
    · split <;> simp only [*]

theorem mem_walkNames_iff : visit ∈ walkNames tree above path place names ↔
    ∃ name ∈ names, visit ∈ visitsOf tree above path place name := by
  induction names with
  | nil => simp [walkNames_nil]
  | cons name names ih => simp [walkNames_cons, ih]

/-! ## Which files are visited -/

theorem visitsOf_of_isFileAt (h : IsFileAt tree (path.join name) (name :: place)) :
    visitsOf tree above path place name = [.file (path.join name)] := by
  rcases h with ⟨content, hg⟩ | ⟨target, last, content, hg, hs⟩
  · simp only [visitsOf, hg]
  · simp only [visitsOf, hg, hs]

theorem mem_names_of_get? {entry : Entry} (h : tree.get? (name :: place) = some entry) :
    name ∈ tree.names place :=
  Tree.mem_names.2 (Option.isSome_iff_exists.2 ⟨entry, h⟩)

/-- The visits to what stands in a directory are visits of the walk, if the walk comes inside it. -/
theorem Inside.mem_walk (h : Inside tree root (level :: above))
    (hv : visit ∈ walkNames tree (level :: above) level.path level.place (tree.names level.place)) :
    visit ∈ walk tree root := by
  generalize hlevels : level :: above = levels at h hv
  induction h generalizing level above with
  | root hs =>
    cases hlevels
    simpa only [walk, hs] using hv
  | @directory upper more name spot _ hg hs ih =>
    cases hlevels
    refine ih rfl (mem_walkNames_iff.2 ⟨name, mem_names_of_get? hg, ?_⟩)
    simpa only [visitsOf, hg, hs] using hv
  | @link upper more name target place _ hg hs hloop ih =>
    cases hlevels
    have hfind : (upper :: more).find? (·.place = place) = none := by
      rw [List.find?_eq_none]
      intro other hother
      simpa using hloop other hother
    refine ih rfl (mem_walkNames_iff.2 ⟨name, mem_names_of_get? hg, ?_⟩)
    simpa only [visitsOf, hg, hs, hfind] using hv

theorem FileBelow.mem_walk (h : FileBelow tree root file) : .file file ∈ walk tree root := by
  obtain ⟨level, above, name, hinside, rfl, hfile⟩ := h
  have hname : name ∈ tree.names level.place := by
    rcases hfile with ⟨_, hg⟩ | ⟨_, _, _, hg, _⟩ <;> exact mem_names_of_get? hg
  refine hinside.mem_walk (mem_walkNames_iff.2 ⟨name, hname, ?_⟩)
  rw [visitsOf_of_isFileAt hfile]
  exact List.mem_singleton_self _

/-- By induction along the walk: whatever is visited below a directory that it is inside of. -/
theorem fileBelow_of_walkNames (hlevel : above.head? = some ⟨path, place⟩)
    (h : Inside tree root above) (hv : .file file ∈ walkNames tree above path place names) :
    FileBelow tree root file := by
  fun_induction walkNames tree above path place names with
  | case1 => cases hv
  | case2 above path place name rest here visits ihDown ihLink ihRest =>
    obtain ⟨upper, rfl⟩ := List.head?_eq_some_iff.1 hlevel
    rcases List.mem_append.1 hv with hv | hv
    · simp only [visits] at hv
      split at hv
      · cases hv
      · rename_i content hg
        obtain rfl := Visit.file.inj (List.mem_singleton.1 hv)
        exact ⟨_, _, name, h, rfl, .inl ⟨content, hg⟩⟩
      · rename_i hg
        split at hv
        · cases List.mem_singleton.1 hv
        · rename_i hs
          exact ihDown hg rfl (.directory h hg hs) hv
      · rename_i target hg
        split at hv
        · cases List.mem_singleton.1 hv
        · rename_i last content hs
          obtain rfl := Visit.file.inj (List.mem_singleton.1 hv)
          exact ⟨_, _, name, h, rfl, .inr ⟨target, last, content, hg, hs⟩⟩
        · cases hv
        · rename_i last hs
          split at hv
          · cases List.mem_singleton.1 hv
          · rename_i hnone
            refine ihLink last hs hnone rfl (.link h hg hs fun other hother => ?_) hv
            rw [List.find?_eq_none] at hnone
            simpa using hnone other hother
    · exact ihRest hlevel h hv

/-- The walk from a directory visits the files below it, and no others. -/
theorem file_mem_walk_iff (hd : isDirectory tree root = true) :
    .file file ∈ walk tree root ↔ FileBelow tree root file := by
  refine ⟨fun hv => ?_, FileBelow.mem_walk⟩
  unfold isDirectory at hd
  split at hd
  · rename_i place hs
    simp only [walk, hs] at hv
    exact fileBelow_of_walkNames rfl (.root hs) hv
  · cases hd

/-! ## In which order -/

/-- Visits below names of a directory, in the order of the paths. -/
structure Ordered (path : Path) (names : List String) (visits : List Visit) : Prop where
  below : ∀ file, .file file ∈ visits →
    ∃ name ∈ names, ∃ more, file.parts = path.parts ++ .name name :: more
  sorted : visits.Pairwise fun earlier later =>
    ∀ p q, earlier = .file p → later = .file q → Path.Before p q

theorem ordered_nil : Ordered path names [] where
  below := by simp
  sorted := .nil

theorem ordered_problem (fault : WalkFault) : Ordered path names [.problem fault] where
  below := by simp
  sorted := List.pairwise_singleton _ _

theorem Tree.Named.segment (h : tree.Named) {entry : Entry}
    (hg : tree.get? (name :: place) = some entry) : Path.Names name.toList := by
  have ho := h.ordinary hg
  refine ⟨?_, fun hup => ho.ne_up (String.toList_inj.1 hup)⟩
  simp only [Path.isIdle, Bool.or_eq_false_iff, decide_eq_false_iff_not]
  refine ⟨?_, fun hhere => ho.ne_here (String.toList_inj.1 hhere)⟩
  simpa using ho.ne_empty

section

variable (hslash : '/' ∉ name.toList) (hname : Path.Names name.toList)

include hslash hname

theorem ordered_file : Ordered path [name] [.file (path.join name)] where
  below := by
    intro file hfile
    obtain rfl := Visit.file.inj (List.mem_singleton.1 hfile)
    exact ⟨name, List.mem_singleton_self _, [], Path.parts_join hslash hname⟩
  sorted := List.pairwise_singleton _ _

/-- What is below a directory is below its name. -/
theorem Ordered.up {visits : List Visit} (h : Ordered (path.join name) names visits) :
    Ordered path [name] visits where
  below := by
    intro file hfile
    obtain ⟨inner, _, more, hparts⟩ := h.below file hfile
    rw [Path.parts_join hslash hname, List.append_assoc] at hparts
    exact ⟨name, List.mem_singleton_self _, .name inner :: more, hparts⟩
  sorted := h.sorted

end

theorem Ordered.append {visits more : List Visit} (h : Ordered path [name] visits)
    (h' : Ordered path names more) (hlt : ∀ later ∈ names, name < later) :
    Ordered path (name :: names) (visits ++ more) where
  below := by
    intro file hfile
    rcases List.mem_append.1 hfile with hfile | hfile
    · obtain ⟨n, hn, hparts⟩ := h.below file hfile
      exact ⟨n, by simp [List.mem_singleton.1 hn], hparts⟩
    · obtain ⟨n, hn, hparts⟩ := h'.below file hfile
      exact ⟨n, by simp [hn], hparts⟩
  sorted := by
    refine List.pairwise_append.2 ⟨h.sorted, h'.sorted, ?_⟩
    rintro _ hp _ hq p q rfl rfl
    obtain ⟨n, hn, _, hparts⟩ := h.below p hp
    obtain ⟨m, hm, _, hparts'⟩ := h'.below q hq
    rw [List.mem_singleton.1 hn] at hparts
    exact Path.before_of_names (hlt m hm) hparts hparts'

theorem walkNames_ordered (hn : tree.Named) (hsorted : names.Pairwise (· < ·))
    (hsome : ∀ name ∈ names, (tree.get? (name :: place)).isSome = true) :
    Ordered path names (walkNames tree above path place names) := by
  fun_induction walkNames tree above path place names with
  | case1 => exact ordered_nil
  | case2 above path place name rest here visits ihDown ihLink ihRest =>
    obtain ⟨hlt, hrest⟩ := List.pairwise_cons.1 hsorted
    obtain ⟨entry, hentry⟩ := Option.isSome_iff_exists.1 (hsome name (by simp))
    have hslash := hn.no_slash hentry
    have hname := hn.segment hentry
    refine Ordered.append ?_ (ihRest hrest fun n hm => hsome n (by simp [hm])) hlt
    simp only [visits]
    split
    · exact ordered_nil
    · exact ordered_file hslash hname
    · rename_i hdir
      split
      · exact ordered_problem _
      · exact (ihDown hdir (tree.sorted_names _) fun n hm => Tree.mem_names.1 hm).up hslash hname
    · split
      · exact ordered_problem _
      · exact ordered_file hslash hname
      · exact ordered_nil
      · rename_i target hs
        split
        · exact ordered_problem _
        · rename_i hnone
          exact (ihLink target hs hnone (tree.sorted_names _) fun n hm =>
            Tree.mem_names.1 hm).up hslash hname

/-- A walk visits files in the order of their paths. -/
theorem walk_ordered (hn : tree.Named) (hd : isDirectory tree root = true) :
    (walk tree root).Pairwise fun earlier later =>
      ∀ p q, earlier = .file p → later = .file q → Path.Before p q := by
  unfold isDirectory at hd
  split at hd
  · rename_i place hs
    simp only [walk, hs]
    exact (walkNames_ordered hn (tree.sorted_names place) fun n hm => Tree.mem_names.1 hm).sorted
  · cases hd

end

end Files
end SourceSplit
