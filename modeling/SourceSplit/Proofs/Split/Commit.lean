import SourceSplit.Proofs.Files.Change
import SourceSplit.Proofs.Split.Prepared

/-!
# SourceSplit.Proofs.Split.Commit

What committing class files does to a plain tree. `Written` and `Cleared` describe the trees that
writing files and removing them again leave behind, each against the tree before the first write:
what stands in the places that the files' paths lead to, and that nothing else is touched.

* `writeAll_ending`: either all files are written, or those before the first that cannot be are
  removed again.
* `commit_ending`: the three ways in which a commit ends; `exists_commit`: when it is done.
* `splitFile_ending`: the ways in which a split ends.
-/

namespace SourceSplit
namespace Split

open Files

/-- A class file that can be written into a tree. -/
def Writable (tree : Tree) (file : ClassFile) : Prop :=
  ∃ after, writeText tree file.path file.content = .ok after

/-- The tree after files were written into `tree`, one after the other. -/
structure Written (tree : Tree) (files : List ClassFile) (after : Tree) : Prop where
  plain : after.Plain
  same : tree.SameDirectories after
  /-- The last file that leads to a place has the word there. -/
  last : ∀ {before : List ClassFile} {file : ClassFile} {behind : List ClassFile} {place : Place},
    files = before ++ file :: behind → Leads tree file.path place →
    (∀ g ∈ behind, ¬ Leads tree g.path place) →
    after.get? place = some (.file file.content.toUTF8)
  other : ∀ {place : Place}, (∀ file ∈ files, ¬ Leads tree file.path place) →
    after.get? place = tree.get? place

/-- The tree after files that were written into `tree` have been removed again. -/
structure Cleared (tree : Tree) (files : List ClassFile) (after : Tree) : Prop where
  plain : after.Plain
  same : tree.SameDirectories after
  gone : ∀ {file : ClassFile} {place : Place}, file ∈ files → Leads tree file.path place →
    after.get? place = none
  other : ∀ {place : Place}, (∀ file ∈ files, ¬ Leads tree file.path place) →
    after.get? place = tree.get? place

section

variable {tree mid after : Tree} {o : Options} {source : Path} {files : List ClassFile}
  {file : ClassFile} {place : Place}

theorem writable_iff (h : tree.Plain) :
    Writable tree file ↔
      ∃ place, Leads tree file.path place ∧ tree.get? place ≠ some .directory := by
  constructor
  · rintro ⟨after, hw⟩
    obtain ⟨place, hl, hp, _⟩ := (write_eq_ok_iff h).1 hw
    exact ⟨place, hl, hp⟩
  · rintro ⟨place, hl, hp⟩
    exact ⟨_, write_eq h hl hp _⟩

/-- Whether a file can be written hangs on the directories alone. -/
theorem writable_congr (h : tree.Plain) (h' : mid.Plain) (hs : tree.SameDirectories mid) :
    Writable tree file ↔ Writable mid file := by
  rw [writable_iff h, writable_iff h']
  simp only [Leads.iff_of_sameDirectories hs, ne_eq, hs.directory]

/-! ## Writing -/

theorem written_nil (h : tree.Plain) : Written tree [] tree where
  plain := h
  same := .refl
  last := by
    intro before file behind place he
    simp at he
  other := fun _ => rfl

theorem Written.concat (h : Written tree files mid)
    (hw : writeText mid file.path file.content = .ok after) :
    Written tree (files ++ [file]) after := by
  obtain ⟨place, hl, hnot, rfl⟩ := (write_eq_ok_iff h.plain).1 hw
  obtain ⟨name, dir, rfl, hdir⟩ := hl.exists_cons
  have hleads : Leads tree file.path (name :: dir) := hl.transfer h.same.symm
  refine ⟨h.plain.put hdir hnot (by simp), h.same.trans (Tree.sameDirectories_put hnot), ?_, ?_⟩
  · intro before g behind place he hg hlast
    rw [Tree.get?_put]
    rcases behind.eq_nil_or_concat with rfl | ⟨front, z, rfl⟩
    · obtain ⟨rfl, hz⟩ := List.append_inj' he rfl
      obtain ⟨rfl, _⟩ := List.cons.inj hz
      rw [if_pos (hg.unique hleads)]
    · rw [List.concat_eq_append] at he hlast
      obtain ⟨hfiles, hz⟩ := List.append_inj' (he.trans (by simp) :
        files ++ [file] = (before ++ g :: front) ++ [z]) rfl
      obtain ⟨rfl, _⟩ := List.cons.inj hz
      have hne : place ≠ name :: dir := by
        rintro rfl
        exact hlast file (by simp) hleads
      rw [if_neg hne]
      exact h.last hfiles hg fun g hg => hlast g (by simp [hg])
  · intro place hno
    rw [Tree.get?_put, if_neg]
    · exact h.other fun g hg => hno g (by simp [hg])
    · rintro rfl
      exact hno file (by simp) hleads

/-! ## Removing again -/

theorem cleared_nil (h : tree.Plain) : Cleared tree [] tree where
  plain := h
  same := .refl
  gone := by
    intro file place hf
    cases hf
  other := fun _ => rfl

theorem Cleared.append {more : List ClassFile} (h : Cleared tree files mid)
    (h' : Cleared mid more after) : Cleared tree (files ++ more) after where
  plain := h'.plain
  same := h.same.trans h'.same
  gone := by
    intro file place hf hl
    -- The place may be emptied twice: what counts is whether it is in the second round.
    by_cases hmore : ∃ g ∈ more, Leads mid g.path place
    · obtain ⟨g, hg, hlg⟩ := hmore
      exact h'.gone hg hlg
    · have hother : after.get? place = mid.get? place :=
        h'.other fun g hg hlg => hmore ⟨g, hg, hlg⟩
      rcases List.mem_append.1 hf with hf | hf
      · rw [hother, h.gone hf hl]
      · exact absurd ⟨file, hf, hl.transfer h.same⟩ hmore
  other := by
    intro place hno
    have hmid : mid.get? place = tree.get? place :=
      h.other fun g hg => hno g (List.mem_append_left _ hg)
    rw [← hmid]
    refine h'.other fun g hg hlg => ?_
    exact hno g (List.mem_append_right _ hg) (hlg.transfer h.same.symm)

/-- What was written and is removed again leaves no trace of what was written. -/
theorem Written.cleared (h : Written tree files mid) (h' : Cleared mid files after) :
    Cleared tree files after where
  plain := h'.plain
  same := h.same.trans h'.same
  gone := fun hf hl => h'.gone hf (hl.transfer h.same)
  other := by
    intro place hno
    have hmid : mid.get? place = tree.get? place := h.other hno
    rw [← hmid]
    exact h'.other fun g hg hlg => hno g hg (hlg.transfer h.same.symm)

theorem unwrite_ending (h : tree.Plain) (hw : Writable tree file) :
    ∃ after, (unwrite file).ending tree = (.ok (), after) ∧ Cleared tree [file] after := by
  obtain ⟨place, hl, hnot⟩ := (writable_iff h).1 hw
  have hremove := remove_eq h hl
  cases hg : tree.get? place with
  | none =>
    rw [hg] at hremove
    refine ⟨tree, ending_unwrite_of_error hremove, h, .refl, ?_, fun _ => rfl⟩
    · intro g p hf hlg
      rw [List.mem_singleton.1 hf] at hlg
      rw [hlg.unique hl, hg]
  | some entry =>
    have hok : remove tree file.path = .ok (tree.erase place) := by
      rw [hremove, hg]
      cases entry with
      | directory => exact absurd hg hnot
      | _ => rfl
    obtain ⟨name, dir, rfl, _⟩ := hl.exists_cons
    refine ⟨tree.erase (name :: dir), ending_unwrite_of_ok hok, h.erase hnot,
      Tree.sameDirectories_erase hnot, ?_, ?_⟩
    · intro g p hf hlg
      rw [List.mem_singleton.1 hf] at hlg
      rw [hlg.unique hl, Tree.get?_erase, if_pos rfl]
    · intro p hno
      rw [Tree.get?_erase, if_neg]
      rintro rfl
      exact hno file (by simp) hl

theorem unwriteAll_ending (h : tree.Plain) (hw : ∀ file ∈ files, Writable tree file) :
    ∃ after, (unwriteAll files).ending tree = (.ok (), after) ∧ Cleared tree files after := by
  induction files generalizing tree with
  | nil => exact ⟨tree, rfl, cleared_nil h⟩
  | cons file files ih =>
    obtain ⟨mid, hone, hmid⟩ := unwrite_ending h (hw file (by simp))
    have hrest : ∀ g ∈ files, Writable mid g := by
      intro g hg
      rw [← writable_congr h hmid.plain hmid.same]
      exact hw g (by simp [hg])
    obtain ⟨after, hall, hafter⟩ := ih hmid.plain hrest
    refine ⟨after, ?_, hmid.append hafter⟩
    rw [unwriteAll, Work.ending_bind_of_ok hone, hall]

/-! ## All files -/

/-- How writing files into a tree ends. -/
inductive Writes (tree : Tree) (files : List ClassFile) : Except Failure Unit × Tree → Prop where
  | all {after : Tree} : (∀ file ∈ files, Writable tree file) → Written tree files after →
      Writes tree files (.ok (), after)
  | stopped {after : Tree} {before rest : List ClassFile} {file : ClassFile} {fault : Fault} :
      files = before ++ file :: rest → (∀ g ∈ before, Writable tree g) → ¬ Writable tree file →
      Cleared tree before after → Writes tree files (.error (.io file.path fault), after)

theorem writeFrom_ending {written : List ClassFile} (h : tree.Plain)
    (hdone : Written tree written mid) (hw : ∀ file ∈ written, Writable tree file) :
    Writes tree (written ++ files) ((writeFrom written files).ending mid) := by
  induction files generalizing written mid with
  | nil =>
    rw [List.append_nil]
    exact .all hw hdone
  | cons file files ih =>
    rw [writeFrom]
    cases hwrite : writeText mid file.path file.content with
    | ok next =>
      rw [Work.ending_bind_of_ok (ending_writeFile_of_ok hwrite), List.append_cons]
      refine ih (hdone.concat hwrite) fun g hg => ?_
      rcases List.mem_append.1 hg with hg | hg
      · exact hw g hg
      · rw [List.mem_singleton.1 hg, writable_congr h hdone.plain hdone.same]
        exact ⟨next, hwrite⟩
    | error fault =>
      have hback : ∀ g ∈ written, Writable mid g := by
        intro g hg
        rw [← writable_congr h hdone.plain hdone.same]
        exact hw g hg
      obtain ⟨after, hundo, hafter⟩ := unwriteAll_ending hdone.plain hback
      rw [Work.ending_bind_of_ok (ending_writeFile_of_error hwrite),
        Work.ending_bind_of_ok hundo, Work.ending_fail]
      refine .stopped rfl hw ?_ (hdone.cleared hafter)
      rw [writable_congr h hdone.plain hdone.same]
      rintro ⟨next, hnext⟩
      rw [hwrite] at hnext
      cases hnext

theorem writeAll_ending (h : tree.Plain) (files : List ClassFile) :
    Writes tree files ((writeAll files).ending tree) :=
  writeFrom_ending h (written_nil h) (List.forall_mem_nil _)

/-- How committing files ends. -/
inductive Commits (tree : Tree) (o : Options) (source : Path) (files : List ClassFile) :
    Except Failure Outcome × Tree → Prop where
  | unwritten {after : Tree} {before rest : List ClassFile} {file : ClassFile} {fault : Fault} :
      files = before ++ file :: rest → (∀ g ∈ before, Writable tree g) → ¬ Writable tree file →
      Cleared tree before after → Commits tree o source files (.error (.io file.path fault), after)
  | unmoved {after : Tree} {fault : Fault} :
      (∀ file ∈ files, Writable tree file) → Written tree files after →
      rename after source (source.withSuffix o.backupSuffix) = .error fault →
      Commits tree o source files (.error (.io source fault), after)
  | done {mid after : Tree} : (∀ file ∈ files, Writable tree file) → Written tree files mid →
      rename mid source (source.withSuffix o.backupSuffix) = .ok after →
      Commits tree o source files
        (.ok ⟨source, files, some (source.withSuffix o.backupSuffix)⟩, after)

theorem commit_ending (h : tree.Plain) (o : Options) (source : Path) (files : List ClassFile) :
    Commits tree o source files ((commit o source files).ending tree) := by
  have hwrites := writeAll_ending h files
  rw [commit, Work.ending_bind]
  generalize (writeAll files).ending tree = ended at hwrites
  cases hwrites with
  | stopped he hw hnot hcleared => exact .unwritten he hw hnot hcleared
  | @all mid hw hwritten =>
    simp only [Work.ending_bind]
    cases hr : rename mid source (source.withSuffix o.backupSuffix) with
    | error fault =>
      rw [ending_setAside_of_error hr]
      exact .unmoved hw hwritten hr
    | ok after =>
      rw [ending_setAside_of_ok hr]
      exact .done hw hwritten hr

/-- A commit is done when all files can be written and the source can be renamed. -/
theorem exists_commit {p q : Place} {content : ByteArray} (h : tree.Plain)
    (hs : Leads tree source p) (hp : tree.get? p = some (.file content))
    (hw : ∀ file ∈ files, Writable tree file) (helse : ∀ file ∈ files, ¬ Leads tree file.path p)
    (hq : Leads tree (source.withSuffix o.backupSuffix) q)
    (hnot : tree.get? q ≠ some .directory) :
    ∃ mid after, (commit o source files).ending tree =
        (.ok ⟨source, files, some (source.withSuffix o.backupSuffix)⟩, after) ∧
      Written tree files mid ∧ Files.Moved mid p q after := by
  have hcommits := commit_ending h o source files
  generalize (commit o source files).ending tree = ended at hcommits ⊢
  have hsource : ∀ {mid : Tree}, Written tree files mid →
      Leads mid source p ∧ mid.get? p = some (.file content) := by
    intro mid hwritten
    rw [hwritten.other helse]
    exact ⟨hs.transfer hwritten.same, hp⟩
  cases hcommits with
  | unwritten he _ hnot _ => exact absurd (hw _ (by simp [he])) hnot
  | @unmoved mid _ _ hwritten hr =>
    obtain ⟨hl, hg⟩ := hsource hwritten
    have hdirectory : mid.get? q ≠ some .directory := by
      rw [ne_eq, ← hwritten.same.directory]
      exact hnot
    obtain ⟨after, hok⟩ :=
      Files.exists_rename_eq_ok hwritten.plain hl hg (hq.transfer hwritten.same) hdirectory
    rw [hr] at hok
    cases hok
  | @done mid after _ hwritten hr =>
    obtain ⟨hl, hg⟩ := hsource hwritten
    obtain ⟨q', hq', _, hmoved⟩ := Files.rename_eq_ok hwritten.plain hl hg hr
    rw [hq'.unique (hq.transfer hwritten.same)] at hmoved
    exact ⟨mid, after, rfl, hwritten, hmoved⟩

/-- How a split ends. -/
inductive Splits (tree : Tree) (o : Options) (source : Path) :
    Except Failure Outcome × Tree → Prop where
  | refused {failure : Failure} :
      prepare o tree source = .error failure → Splits tree o source (.error failure, tree)
  | dry {files : List ClassFile} : prepare o tree source = .ok files → o.dryRun = true →
      Splits tree o source (.ok ⟨source, files, none⟩, tree)
  | committed {files : List ClassFile} {ended : Except Failure Outcome × Tree} :
      prepare o tree source = .ok files → o.dryRun = false → Commits tree o source files ended →
      Splits tree o source ended

theorem splitFile_ending (h : tree.Plain) (o : Options) (source : Path) :
    Splits tree o source ((splitFile o source).ending tree) := by
  rw [ending_splitFile]
  cases hprepare : prepare o tree source with
  | error failure => exact .refused hprepare
  | ok files =>
    by_cases hdry : o.dryRun = true
    · simp only [hdry, if_true]
      exact .dry hprepare hdry
    · rw [Bool.not_eq_true] at hdry
      simp only [hdry, Bool.false_eq_true, if_false]
      exact .committed hprepare hdry (commit_ending h o source files)

end

end Split
end SourceSplit
