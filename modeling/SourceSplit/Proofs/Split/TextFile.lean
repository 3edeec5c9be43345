import SourceSplit.Proofs.Ending
import SourceSplit.Proofs.Files.Made
import SourceSplit.Split.TextFile

/-!
# SourceSplit.Proofs.Split.TextFile

Saving a text file in a plain tree. First the missing directories on the way to the file are made,
which touches nothing that is there (`ensureParent_opened`), then the file is written. So a text
that was saved is read back, and nothing has changed but the file and those directories; and where
saving fails, half way or at once, there are only new directories (`saveFile_reads_back`).
-/

namespace SourceSplit
namespace Split

open Files (Tree Place Leads Passes Made)

/-- What stands in the place is what stood there, or a new directory that the parent of the path
comes by. -/
def KeptOrMade (tree : Tree) (path : Path) (after : Tree) (place : Place) : Prop :=
  after.get? place = tree.get? place ∨
    tree.get? place = none ∧ after.get? place = some .directory ∧
      ∃ parent, path.parent? = some parent ∧ Passes after parent place

/-- Only directories on the way to the path are new. -/
structure Opened (tree : Tree) (path : Path) (after : Tree) : Prop where
  home : after.home = tree.home
  kept : ∀ place, KeptOrMade tree path after place

/-- The text was saved at the path, and else only directories on the way to it are new. -/
structure SavedText (tree : Tree) (path : Path) (text : String) (after : Tree) : Prop where
  home : after.home = tree.home
  reads : (loadFile path).ending after = (.ok text, after)
  file : ∃ place, Leads after path place ∧ tree.get? place ≠ some .directory ∧
    after.get? place = some (.file text.toUTF8) ∧
    ∀ other, other ≠ place → KeptOrMade tree path after other

section

variable {tree mid after : Tree} {path parent : Path} {place : Place}

/-! ## The directories on the way -/

theorem ensureDirectory_made (h : tree.Plain) (directory : Path) :
    Made tree directory ((ensureDirectory directory).ending tree).2 := by
  have hmade := Files.makeDirectories_made h directory
  simp only [Work.ending, Work.run, ensureDirectory]
  split
  · exact Files.made_refl h directory
  · split <;> rename_i hmake <;> rw [hmake] at hmade <;> exact hmade

theorem ensureParent_made (h : tree.Plain) (path : Path) :
    ((ensureParent path).ending tree).2 = tree ∨ ∃ parent, path.parent? = some parent ∧
      Made tree parent ((ensureParent path).ending tree).2 := by
  unfold ensureParent
  split
  · rename_i parent hparent
    split
    · exact .inl rfl
    · exact .inr ⟨parent, hparent, ensureDirectory_made h parent⟩
  · exact .inl rfl

theorem opened_of_made (hparent : path.parent? = some parent) (h : Made tree parent after) :
    Opened tree path after where
  home := h.home
  kept := by
    intro place
    cases hg : tree.get? place with
    | some entry => exact .inl ((h.kept hg).trans hg.symm)
    | none =>
      rcases h.made hg with hnone | ⟨hd, hp⟩
      · exact .inl (hnone.trans hg.symm)
      · exact .inr ⟨hg, hd, parent, hparent, hp⟩

theorem ensureParent_opened (h : tree.Plain) (path : Path) :
    ((ensureParent path).ending tree).2.Plain ∧
      Opened tree path ((ensureParent path).ending tree).2 := by
  rcases ensureParent_made h path with heq | ⟨parent, hparent, hmade⟩
  · rw [heq]
    exact ⟨h, rfl, fun _ => .inl rfl⟩
  · exact ⟨hmade.plain, opened_of_made hparent hmade⟩

/-! ## The file -/

theorem loadFile_of_leads (h : tree.Plain) (hl : Leads tree path place) {text : String}
    (hg : tree.get? place = some (.file text.toUTF8)) :
    (loadFile path).ending tree = (.ok text, tree) := by
  simp only [loadFile, Work.ending_look, hl.readText h hg]

/-- A text is written where the path leads once its directories are there. -/
theorem Opened.savedText (h : mid.Plain) (ho : Opened tree path mid) (hl : Leads mid path place)
    (hnot : mid.get? place ≠ some .directory) (text : String) :
    SavedText tree path text (mid.put place (.file text.toUTF8)) := by
  obtain ⟨name, dir, rfl, hdir⟩ := hl.exists_cons
  have hsame : mid.SameDirectories (mid.put (name :: dir) (.file text.toUTF8)) :=
    Tree.sameDirectories_put hnot
  have hplain : (mid.put (name :: dir) (.file text.toUTF8)).Plain := h.put hdir hnot (by simp)
  have hleads := hl.transfer hsame
  have hself : (mid.put (name :: dir) (.file text.toUTF8)).get? (name :: dir) =
      some (.file text.toUTF8) := Tree.get?_put_self
  refine ⟨ho.home, loadFile_of_leads hplain hleads hself, name :: dir, hleads, ?_, hself, ?_⟩
  · rcases ho.kept (name :: dir) with hkept | ⟨hnone, -⟩
    · exact hkept ▸ hnot
    · exact hnone ▸ nofun
  · intro other hne
    rw [KeptOrMade, Tree.get?_put_of_ne hne]
    exact (ho.kept other).imp_right fun ⟨hnone, hd, parent, hparent, hp⟩ =>
      ⟨hnone, hd, parent, hparent, hp.transfer hsame⟩

/-- Once the directories are there, the text is saved or nothing more happens. -/
theorem Opened.ending_replaceFile (h : mid.Plain) (ho : Opened tree path mid) (text : String) :
    (∃ after, (replaceFile path text).ending mid = (.ok (), after) ∧
      SavedText tree path text after) ∨
      ∃ failure, (replaceFile path text).ending mid = (.error failure, mid) := by
  simp only [Work.ending, Work.run, replaceFile]
  cases hwrite : Files.writeText mid path text with
  | error fault => exact .inr ⟨_, rfl⟩
  | ok after =>
    obtain ⟨place, hl, hnot, rfl⟩ := (Files.write_eq_ok_iff h).1 hwrite
    exact .inl ⟨_, rfl, ho.savedText h hl hnot text⟩

/-- A text that is saved is read back. Nothing else has changed but for new directories on the way,
and where saving fails there is nothing new but these. -/
theorem saveFile_reads_back (h : tree.Plain) (path : Path) (text : String) :
    match (saveFile path text).ending tree with
    | (.ok (), after) => SavedText tree path text after
    | (.error _, after) => Opened tree path after := by
  obtain ⟨hplain, hopened⟩ := ensureParent_opened h path
  rw [saveFile, Work.ending_bind]
  generalize (ensureParent path).ending tree = ended at hplain hopened ⊢
  obtain ⟨result, mid⟩ := ended
  cases result with
  | error failure => exact hopened
  | ok =>
    simp only
    rcases hopened.ending_replaceFile hplain text with ⟨after, hsave, hsaved⟩ | ⟨failure, hfail⟩
    · rw [hsave]
      exact hsaved
    · rw [hfail]
      exact hopened

end

/-- In an empty tree a directory is made for the file. -/
theorem saveFile_reads_back_made :
    ∃ after, (saveFile ⟨"/r/x"⟩ "text").ending (Tree.bare []) = (.ok (), after) ∧
      SavedText (Tree.bare []) ⟨"/r/x"⟩ "text" after ∧
      after.get? ["r"] = some .directory ∧
      after.get? ["x", "r"] = some (.file "text".toUTF8) := by
  have hbare := Tree.plain_bare []
  have hnone : (Tree.bare []).get? ["r"] = none := by simp [Tree.get?_bare]
  have hparent : Leads (Tree.bare []) ⟨"/r"⟩ ["r"] := Files.leads_of_root "r" (by decide)
  have hmake : (ensureDirectory ⟨"/r"⟩).ending (Tree.bare []) =
      (.ok (), (Tree.bare []).put ["r"] .directory) := by
    have habsent := (hparent.isPresent_eq_false_iff hbare).2 hnone
    have hone := Files.makeDirectory_eq hbare hparent hnone
    have hall : Files.makeDirectories (Tree.bare []) ⟨"/r"⟩ =
        (.ok (), (Tree.bare []).put ["r"] .directory) := by
      rw [Files.makeDirectories, if_neg (by decide), hone]
    simp [Work.ending, Work.run, ensureDirectory, habsent, hall]
  have hmid : ((Tree.bare []).put ["r"] .directory).Plain :=
    hbare.put rfl (by simp [hnone]) (by simp)
  have hleads : Leads ((Tree.bare []).put ["r"] .directory) ⟨"/r/x"⟩ ["x", "r"] := by
    refine ⟨rfl, rfl, ["", "r"], "x", ["r"], by decide +kernel, by decide, by decide,
      ?_, rfl⟩
    exact .stay rfl (.inl rfl) (.down rfl (by decide) (by decide) (.done Tree.get?_put_self))
  have hfree : ((Tree.bare []).put ["r"] .directory).get? ["x", "r"] = none := by
    simp [Tree.get?_put, Tree.get?_bare]
  have hsave : (saveFile ⟨"/r/x"⟩ "text").ending (Tree.bare []) =
      (.ok (), ((Tree.bare []).put ["r"] .directory).put ["x", "r"] (.file "text".toUTF8)) := by
    have hensure : ensureParent ⟨"/r/x"⟩ = ensureDirectory ⟨"/r"⟩ := by
      have hup : Path.parent? ⟨"/r/x"⟩ = some ⟨"/r"⟩ := by decide +kernel
      simp [ensureParent, hup]
    have hwrite := Files.write_eq hmid hleads (by simp [hfree]) "text".toUTF8
    rw [saveFile, hensure, Work.ending_bind_of_ok hmake]
    simp only [Work.ending, Work.run, replaceFile, Files.writeText, hwrite]
  have hsaved := saveFile_reads_back hbare ⟨"/r/x"⟩ "text"
  rw [hsave] at hsaved
  exact ⟨_, hsave, hsaved, rfl, Tree.get?_put_self⟩

end Split
end SourceSplit
