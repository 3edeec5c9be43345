import SourceSplit.Files.Walk
import SourceSplit.Proofs.Files.Leads
import SourceSplit.Proofs.Path.Join

/-!
# SourceSplit.Proofs.Files.Walk

What a walk through a plain tree finds. Its visits are to files, and no file is visited twice: the
path that a directory was reached by leads into it (`Into`), so that what is found below one name
stands below that name, and the names of a directory differ.

* `Into.leads_join`: where a name that is looked up in a directory leads.
* `walkNames_found`: the visits below a directory, by induction along the walk.
* `walk_found`: the same of the whole walk.
-/

namespace SourceSplit
namespace Files

/-- Names as a file system has them. -/
structure Tree.Named (tree : Tree) : Prop where
  ordinary : ∀ {name : String} {dir : Place} {entry : Entry},
    tree.get? (name :: dir) = some entry → Ordinary name
  no_slash : ∀ {name : String} {dir : Place} {entry : Entry},
    tree.get? (name :: dir) = some entry → '/' ∉ name.toList

theorem Tree.named_ofEntries {entries : List (Place × Entry)}
    (h : ∀ e ∈ entries, ∀ name ∈ e.1.head?, Ordinary name ∧ '/' ∉ name.toList) :
    (Tree.ofEntries entries).Named where
  ordinary := fun he => (h _ (mem_of_get?_ofEntries he) _ rfl).1
  no_slash := fun he => (h _ (mem_of_get?_ofEntries he) _ rfl).2

theorem nodup_eraseDups (names : List String) : names.eraseDups.Nodup := by
  match names with
  | [] => exact List.nodup_nil
  | name :: names =>
    rw [List.eraseDups_cons, List.nodup_cons]
    exact ⟨by simp, nodup_eraseDups _⟩
termination_by names.length
decreasing_by exact Nat.lt_succ_of_le (List.length_filter_le _ _)

theorem Tree.nodup_names (tree : Tree) (dir : Place) : (tree.names dir).Nodup :=
  (List.mergeSort_perm _ _).nodup_iff.2 (nodup_eraseDups _)

theorem Tree.sorted_names (tree : Tree) (dir : Place) : (tree.names dir).Pairwise (· < ·) := by
  have hle : (tree.names dir).Pairwise (· ≤ ·) := by
    refine (List.pairwise_mergeSort ?_ ?_ _).imp of_decide_eq_true
    · intro a b c hab hbc
      exact decide_eq_true (String.le_trans (of_decide_eq_true hab) (of_decide_eq_true hbc))
    · intro a b
      simpa using String.le_total a b
  refine (hle.and (tree.nodup_names dir)).imp fun {a b} hab => ?_
  exact String.not_le.1 fun hba => hab.2 (String.le_antisymm hab.1 hba)

/-- A directory lists its names in order, each of them once. -/
theorem Tree.names_eq {tree : Tree} {dir : Place} {names : List String}
    (hsorted : names.Pairwise (· < ·))
    (hmem : ∀ name, name ∈ names ↔ (tree.get? (name :: dir)).isSome = true) :
    tree.names dir = names := by
  have hnodup : names.Nodup := by
    refine hsorted.imp ?_
    rintro a b hlt rfl
    exact String.lt_irrefl _ hlt
  have hperm : (tree.names dir).Perm names := by
    rw [List.perm_ext_iff_of_nodup (tree.nodup_names dir) hnodup]
    exact fun name => Tree.mem_names.trans (hmem name).symm
  refine hperm.eq_of_pairwise (fun a b _ _ hab hba => ?_) (tree.sorted_names dir) hsorted
  exact absurd hab (String.lt_asymm hba)

/-! ## Paths into directories -/

/-- The path leads into a directory. -/
structure Into (tree : Tree) (path : Path) (dir : Place) : Prop where
  ne_empty : path.text ≠ ""
  enters : Enters tree (startFrom tree.home path.text) (pathNames path.text) dir

section

variable {tree : Tree} {path : Path} {dir place : Place} {name : String}

theorem into_of_status (h : tree.Plain) (hs : status tree path = .ok (.directory dir)) :
    Into tree path dir := by
  unfold status at hs
  split at hs
  · cases hs
  · unfold locate at hs
    obtain ⟨⟨⟩, _, hs⟩ := exists_of_bind_eq_ok hs
    obtain ⟨⟨⟩, hfits, hs⟩ := exists_of_bind_eq_ok hs
    refine ⟨?_, (follow_eq_directory_iff h).1 hs⟩
    intro hempty
    rw [lengthFits, hempty] at hfits
    simp at hfits

/-- The way to a name in a directory goes through the directory. -/
theorem Into.join_names (hi : Into tree path dir) (hslash : '/' ∉ name.toList) :
    ∃ before, pathNames (path.join name).text = before ++ [name] ∧
      Enters tree (startFrom tree.home (path.join name).text) before dir := by
  obtain ⟨front, idle, hpath, hidle, _, hjoin⟩ := Path.exists_segments_join hi.ne_empty hslash
  have habs := Path.isAbsolute_join hi.ne_empty hslash
  have henters := hi.enters
  refine ⟨front.map String.ofList, ?_, ?_⟩
  · rw [pathNames, show Path.mk (path.join name).text = path.join name from rfl, hjoin,
      List.map_append, List.map_singleton, String.ofList_toList]
  · rw [pathNames, show Path.mk path.text = path from rfl, hpath, List.map_append] at henters
    have hstart : startFrom tree.home (path.join name).text = startFrom tree.home path.text := by
      simp only [startFrom, show Path.mk (path.join name).text = path.join name from rfl,
        show Path.mk path.text = path from rfl, habs]
    rw [hstart]
    refine henters.of_append_idle fun n hn => .inl ?_
    rcases hidle with rfl | rfl
    · simp at hn
    · simpa using hn

theorem Into.leads_join (hi : Into tree path dir) (hslash : '/' ∉ name.toList)
    (hl : Leads tree (path.join name) place) : place = name :: dir := by
  obtain ⟨before, hnames, henters⟩ := hi.join_names hslash
  obtain ⟨before', name', dir', hnames', _, _, henters', rfl⟩ := hl.names
  obtain ⟨rfl, hlast⟩ := List.append_inj' (hnames.symm.trans hnames') rfl
  rw [henters.unique henters', (List.cons.inj hlast).1]

theorem Into.join (h : tree.Plain) (hi : Into tree path dir) (hslash : '/' ∉ name.toList)
    (ho : Ordinary name) (hd : tree.get? (name :: dir) = some .directory) {spot : Spot}
    (hs : status tree (path.join name) = .ok spot) : Into tree (path.join name) (name :: dir) := by
  obtain ⟨before, hnames, henters⟩ := hi.join_names hslash
  have hlocate : locate tree false (path.join name) = .ok spot := by
    unfold status at hs
    split at hs
    · cases hs
    · exact hs
  unfold locate at hlocate
  obtain ⟨⟨⟩, _, hlocate⟩ := exists_of_bind_eq_ok hlocate
  obtain ⟨⟨⟩, hfits, hf⟩ := exists_of_bind_eq_ok hlocate
  have hlong : isTooLong name = false := by
    rw [hnames, follow_of_enters h henters (.inl rfl), follow_cons h henters.stop,
      if_neg (not_or.2 ⟨ho.ne_empty, ho.ne_here⟩), if_neg ho.ne_up, if_neg (by simp)] at hf
    split at hf
    · cases hf
    · rename_i hlong
      simpa using hlong
  refine ⟨?_, ?_⟩
  · intro hempty
    rw [lengthFits, hempty] at hfits
    simp at hfits
  · rw [hnames]
    exact henters.append (.down henters.stop ho hlong (.done hd))

end

/-! ## The visits of a walk -/

/-- The visit is to the file that stands in a place. -/
def Visit.Finds (tree : Tree) (visit : Visit) (place : Place) : Prop :=
  ∃ path, visit = .file path ∧ Leads tree path place

/-- Visits to files below names of a directory, to each of them once. -/
structure Found (tree : Tree) (dir : Place) (names : List String) (visits : List Visit) : Prop where
  file : ∀ visit ∈ visits, ∀ place, visit.Finds tree place →
    ∃ content, tree.get? place = some (.file content)
  below : ∀ visit ∈ visits, ∀ place, visit.Finds tree place →
    ∃ name ∈ names, name :: dir <:+ place
  apart : visits.Pairwise fun earlier later =>
    ∀ place, earlier.Finds tree place → ¬ later.Finds tree place

section

variable {tree : Tree} {dir : Place} {name : String} {names : List String}
  {visits more : List Visit} {path : Path} {place : Place} {above : List Level}

theorem found_nil : Found tree dir names [] where
  file := by simp
  below := by simp
  apart := .nil

theorem found_problem (fault : WalkFault) : Found tree dir names [.problem fault] where
  file := by
    rintro visit hv place ⟨path, rfl, _⟩
    simp at hv
  below := by
    rintro visit hv place ⟨path, rfl, _⟩
    simp at hv
  apart := List.pairwise_singleton _ _

theorem found_file {content : ByteArray} (hi : Into tree path dir) (hslash : '/' ∉ name.toList)
    (hg : tree.get? (name :: dir) = some (.file content)) :
    Found tree dir [name] [.file (path.join name)] := by
  have hplace : ∀ visit ∈ [Visit.file (path.join name)], ∀ place, visit.Finds tree place →
      place = name :: dir := by
    rintro visit hv place ⟨p, rfl, hl⟩
    rw [List.mem_singleton, Visit.file.injEq] at hv
    rw [hv] at hl
    exact hi.leads_join hslash hl
  refine ⟨?_, ?_, List.pairwise_singleton _ _⟩
  · intro visit hv place hf
    rw [hplace visit hv place hf]
    exact ⟨content, hg⟩
  · intro visit hv place hf
    rw [hplace visit hv place hf]
    exact ⟨name, by simp, List.suffix_refl _⟩

/-- What is found below a directory is found below its name. -/
theorem Found.up (h : Found tree (name :: dir) names visits) : Found tree dir [name] visits where
  file := h.file
  below := by
    intro visit hv place hf
    obtain ⟨n, _, hn⟩ := h.below visit hv place hf
    exact ⟨name, by simp, (List.suffix_cons n _).trans hn⟩
  apart := h.apart

/-- What is found below two names is not the same. -/
theorem Found.append (h : Found tree dir [name] visits) (h' : Found tree dir names more)
    (hname : name ∉ names) : Found tree dir (name :: names) (visits ++ more) where
  file := by
    intro visit hv
    rcases List.mem_append.1 hv with hv | hv
    · exact h.file visit hv
    · exact h'.file visit hv
  below := by
    intro visit hv place hf
    rcases List.mem_append.1 hv with hv | hv
    · obtain ⟨n, hn, hs⟩ := h.below visit hv place hf
      exact ⟨n, by simp [List.mem_singleton.1 hn], hs⟩
    · obtain ⟨n, hn, hs⟩ := h'.below visit hv place hf
      exact ⟨n, by simp [hn], hs⟩
  apart := by
    refine List.pairwise_append.2 ⟨h.apart, h'.apart, ?_⟩
    intro v hv w hw place hfv hfw
    obtain ⟨n, hn, hsn⟩ := h.below v hv place hfv
    obtain ⟨m, hm, hsm⟩ := h'.below w hw place hfw
    have hle : n :: dir <:+ m :: dir := List.suffix_of_suffix_length_le hsn hsm (by simp)
    have heq := hle.eq_of_length (by simp)
    rw [← List.mem_singleton.1 hn, (List.cons.inj heq).1] at hname
    exact hname hm

theorem walkNames_nil : walkNames tree above path place [] = [] := by
  rw [walkNames]

theorem walkNames_file {content : ByteArray}
    (hg : tree.get? (name :: place) = some (.file content)) :
    walkNames tree above path place (name :: names) =
      .file (path.join name) :: walkNames tree above path place names := by
  rw [walkNames]
  split <;> simp_all

theorem walkNames_bare {spot : Spot} (hg : tree.get? (name :: place) = some .directory)
    (hs : status tree (path.join name) = .ok spot) (hnone : tree.names (name :: place) = []) :
    walkNames tree above path place (name :: names) = walkNames tree above path place names := by
  rw [walkNames]
  split <;> simp_all [walkNames_nil]

theorem walkNames_found (h : tree.Plain) (hn : tree.Named)
    (hi : Into tree path place) (hsome : ∀ name ∈ names, (tree.get? (name :: place)).isSome = true)
    (hnodup : names.Nodup) : Found tree place names (walkNames tree above path place names) := by
  fun_induction walkNames tree above path place names with
  | case1 => exact found_nil
  | case2 above path place name rest here visits ihDown _ ihRest =>
    obtain ⟨hnew, hrest⟩ := List.nodup_cons.1 hnodup
    obtain ⟨entry, hentry⟩ := Option.isSome_iff_exists.1 (hsome name (by simp))
    have hslash := hn.no_slash hentry
    refine Found.append ?_ (ihRest hi (fun n hm => hsome n (by simp [hm])) hrest) hnew
    simp only [visits]
    split
    · exact found_nil
    · rename_i content hfile
      exact found_file hi hslash hfile
    · rename_i hdir
      split
      · exact found_problem _
      · rename_i spot hstatus
        have hsub := hi.join h hslash (hn.ordinary hentry) hdir hstatus
        exact (ihDown hdir hsub (fun n hm => Tree.mem_names.1 hm) (tree.nodup_names _)).up
    · rename_i target hlink
      exact absurd hlink (h.no_link _ _)

theorem status_root (tree : Tree) : status tree ⟨"/"⟩ = .ok (.directory []) := by
  have hnames : pathNames "/" = ["", ""] := by decide
  have hstart : startFrom tree.home "/" = [] := by
    simp [startFrom, Path.isAbsolute]
  have hfollow : locate tree false ⟨"/"⟩ = .ok (.directory []) := by
    have hnul : nulFree ⟨"/"⟩ = .ok () := rfl
    have hfits : lengthFits ⟨"/"⟩ = .ok () := rfl
    simp only [locate, hnul, hfits, hnames, hstart, bind, Except.bind]
    simp [follow]
  rw [status, hfollow]

theorem walk_root (tree : Tree) :
    walk tree ⟨"/"⟩ = walkNames tree [⟨⟨"/"⟩, []⟩] ⟨"/"⟩ [] (tree.names []) := by
  simp only [walk, status_root]

/-- A walk finds files, and each of them once. -/
theorem walk_found (h : tree.Plain) (hn : tree.Named) {root : Path}
    (hd : isDirectory tree root = true) :
    ∃ place names, Found tree place names (walk tree root) := by
  unfold isDirectory at hd
  split at hd
  · rename_i place hs
    refine ⟨place, tree.names place, ?_⟩
    simp only [walk, hs]
    exact walkNames_found h hn (into_of_status h hs) (fun n hm => Tree.mem_names.1 hm)
      (tree.nodup_names _)
  · cases hd

end

end Files
end SourceSplit
