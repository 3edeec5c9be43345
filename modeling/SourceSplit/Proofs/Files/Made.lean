import SourceSplit.Proofs.Files.Beside
import SourceSplit.Proofs.Files.Passes

/-!
# SourceSplit.Proofs.Files.Made

Making the directories of a path in a plain tree, those that are missing: whether that goes through
or stops half way, what was there stays as it is, and what is new are directories that the path
comes by (`makeDirectories_made`).
-/

namespace SourceSplit
namespace Files

/-- Directories on the way of the path were made in `tree`, or none. -/
structure Made (tree : Tree) (path : Path) (after : Tree) : Prop where
  plain : after.Plain
  home : after.home = tree.home
  kept : ∀ {place : Place} {entry : Entry}, tree.get? place = some entry →
    after.get? place = some entry
  made : ∀ {place : Place}, tree.get? place = none → after.get? place = none ∨
    after.get? place = some .directory ∧ Passes after path place

section

variable {tree mid after : Tree} {path parent : Path} {place : Place}

/-! ## Parents -/

theorem Passes.exists_name (h : Passes tree path place) :
    ∃ name ∈ pathNames path.text, name ≠ "" := by
  obtain ⟨before, name, behind, dir, hn, ho, _⟩ := h
  exact ⟨name, by simp [hn], ho.ne_empty⟩

/-- What a parent comes by, the path comes by. -/
theorem Passes.of_parent (h : path.parent? = some parent) (hp : Passes tree parent place) :
    Passes tree path place := by
  rcases Path.segments_parent h with rfl | rfl | ⟨habs, more, hmore⟩
  · exact absurd hp.exists_name (by decide)
  · exact absurd hp.exists_name (by decide)
  · have hstart : startFrom tree.home path.text = startFrom tree.home parent.text := by
      simp only [startFrom, habs]
    have hnames : pathNames path.text = pathNames parent.text ++ more.map String.ofList := by
      rw [pathNames, hmore, List.map_append]
      rfl
    unfold Passes
    rw [hstart, hnames]
    exact hp.append

/-! ## Making directories -/

theorem made_refl (h : tree.Plain) (path : Path) : Made tree path tree where
  plain := h
  home := rfl
  kept := id
  made := .inl

theorem Made.trans (h : Made tree path mid) (h' : Made mid path after) : Made tree path after where
  plain := h'.plain
  home := h'.home.trans h.home
  kept := fun he => h'.kept (h.kept he)
  made := by
    intro place hnone
    rcases h.made hnone with hmid | ⟨hd, hp⟩
    · exact h'.made hmid
    · exact .inr ⟨h'.kept hd, hp.mono h'.home fun _ he => h'.kept he⟩

theorem Made.of_parent (hparent : path.parent? = some parent) (h : Made tree parent after) :
    Made tree path after where
  plain := h.plain
  home := h.home
  kept := h.kept
  made := by
    intro place hnone
    exact (h.made hnone).imp_right fun ⟨hd, hp⟩ => ⟨hd, hp.of_parent hparent⟩

/-- A directory is made where the path leads, if nothing stands there. -/
theorem makeDirectory_eq (h : tree.Plain) (hl : Leads tree path place)
    (hnone : tree.get? place = none) :
    makeDirectory tree path = .ok (tree.put place .directory) := by
  obtain ⟨name, dir, rfl, hlong, hd⟩ := hl.directoryOf h
  simp only [makeDirectory, hl.nul, hd, bind, Except.bind, hlong, hnone, Bool.false_eq_true,
    if_false]

theorem makeDirectory_made (h : tree.Plain) (hm : makeDirectory tree path = .ok after) :
    Made tree path after := by
  unfold makeDirectory at hm
  obtain ⟨⟨⟩, _, hm⟩ := exists_of_bind_eq_ok hm
  obtain ⟨⟨dir, named⟩, hd, hm⟩ := exists_of_bind_eq_ok hm
  cases named with
  | special => cases hm
  | plain name slash =>
    simp only at hm
    split at hm
    · cases hm
    · rename_i hlong
      obtain ⟨hpasses, hdir⟩ := passes_of_directoryOf h hd (by simpa using hlong)
      split at hm
      · cases hm
      · rename_i hnone
        cases hm
        have hnot : tree.get? (name :: dir) ≠ some .directory := by
          rw [hnone]
          exact nofun
        have hkept : ∀ {place : Place} {entry : Entry}, tree.get? place = some entry →
            (tree.put (name :: dir) .directory).get? place = some entry := by
          intro place entry he
          rw [Tree.get?_put, if_neg]
          · exact he
          · rintro rfl
            rw [hnone] at he
            cases he
        refine ⟨h.put hdir hnot (by simp), rfl, hkept, fun {place} habsent => ?_⟩
        rw [Tree.get?_put]
        split
        · rename_i hplace
          rw [hplace]
          exact .inr ⟨rfl, hpasses.mono (Tree.home_put _ _ _) fun _ he => hkept he⟩
        · exact .inl habsent

theorem makeDirectories_made (h : tree.Plain) (path : Path) :
    Made tree path (makeDirectories tree path).2 := by
  fun_induction makeDirectories tree path with
  | case1 path _ => exact made_refl h path
  | case2 path _ after hone => exact makeDirectory_made h hone
  | case3 path _ _ _ => exact made_refl h path
  | case4 path _ _ parent hparent fault mid hup ih =>
    rw [hup] at ih
    exact ih.of_parent hparent
  | case5 path _ _ parent hparent mid hup after hone ih =>
    rw [hup] at ih
    exact (ih.of_parent hparent).trans (makeDirectory_made ih.plain hone)
  | case6 path _ _ parent hparent mid hup fault _ ih =>
    rw [hup] at ih
    exact ih.of_parent hparent
  | case7 path _ fault _ _ => exact made_refl h path

end

end Files
end SourceSplit
