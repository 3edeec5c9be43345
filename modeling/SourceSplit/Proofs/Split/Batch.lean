import SourceSplit.Proofs.Files.Walk
import SourceSplit.Proofs.Split.Collect
import SourceSplit.Proofs.Split.Rollback
import SourceSplit.Proofs.Split.Turn

/-!
# SourceSplit.Proofs.Split.Batch

A batch as a run of turns (`Runs`), and what such a run leaves alone. A file stays as it is unless
it is the source of a split, a backup is put in its place, or, when files may be replaced, a class
file is written there, by a split or by one that fails after it has come to that file
(`Runs.keeps`). When files may not be replaced, every file that waits for its turn is still there
when its turn comes (`Runs.awaits`).

Both are said of a turn first, and derive from what a turn can do to a place (`Turn.change`). What
the classes of a split come to is `Runs.class_kept`.
-/

namespace SourceSplit
namespace Split

open Source
open Files (Tree Place Leads)

/-- The turns of a batch, one after the other. -/
inductive Runs (o : Options) : Tree → List (Path × Verdict) → Tree → Prop where
  | done {tree : Tree} : Runs o tree [] tree
  | turn {tree mid after : Tree} {file : Path} {verdict : Verdict}
      {verdicts : List (Path × Verdict)} :
      accepts [o.extension] file = true → (judge o file).ending tree = (.ok verdict, mid) →
      Turn o tree file verdict mid → Runs o mid verdicts after →
      Runs o tree ((file, verdict) :: verdicts) after

section

variable {o : Options} {tree mid after : Tree} {directory file source : Path} {batch : Batch}
  {verdict : Verdict} {verdicts before behind : List (Path × Verdict)} {outcome : Outcome}
  {place : Place} {entry : Files.Entry}

namespace Runs

theorem plain (h : tree.Plain) (hr : Runs o tree verdicts after) : after.Plain := by
  induction hr with
  | done => exact h
  | turn _ _ ht _ ih => exact ih (ht.plain h)

theorem same (hr : Runs o tree verdicts after) : tree.SameDirectories after := by
  induction hr with
  | done => exact .refl
  | turn _ _ ht _ ih => exact ht.same.trans ih

theorem append (hr : Runs o tree before mid) (hr' : Runs o mid behind after) :
    Runs o tree (before ++ behind) after := by
  induction hr with
  | done => exact hr'
  | turn hacc hone ht _ ih => exact .turn hacc hone ht (ih hr')

theorem of_append (hr : Runs o tree (before ++ behind) after) :
    ∃ mid, Runs o tree before mid ∧ Runs o mid behind after := by
  induction before generalizing tree with
  | nil => exact ⟨tree, .done, hr⟩
  | cons first before ih =>
    cases hr with
    | turn hacc hone ht hr =>
      obtain ⟨mid, h1, h2⟩ := ih hr
      exact ⟨mid, .turn hacc hone ht h1, h2⟩

end Runs

theorem judgeAll_runs (files : List Path) (h : tree.Plain) (hreal : o.dryRun = false)
    (hacc : ∀ file ∈ files, accepts [o.extension] file = true) :
    ∃ verdicts after, JudgesAll o tree files verdicts after ∧ Runs o tree verdicts after := by
  induction files generalizing tree with
  | nil => exact ⟨[], tree, judgesAll_nil, .done⟩
  | cons file files ih =>
    obtain ⟨verdict, mid, hone, hturn⟩ := judge_turn h hreal (hacc file (by simp))
    obtain ⟨verdicts, after, hall, hruns⟩ :=
      ih (hturn.plain h) fun f hf => hacc f (by simp [hf])
    exact ⟨(file, verdict) :: verdicts, after, hall.cons hone,
      .turn (hacc file (by simp)) hone hturn hruns⟩

/-- A batch that is not dry runs through the files below the directory. -/
theorem splitDirectory_runs (h : tree.Plain) (hreal : o.dryRun = false)
    (hr : ((splitDirectory o directory).run tree).result = .ok batch) :
    Files.isDirectory tree directory = true ∧
      batch.verdicts.map Prod.fst = filesBelow tree [o.extension] directory ∧
      Runs o tree batch.verdicts ((splitDirectory o directory).run tree).tree := by
  obtain ⟨verdicts, after, hall, hruns⟩ :=
    judgeAll_runs (filesBelow tree [o.extension] directory) h hreal fun f hf => by
      obtain ⟨_, _, hvisit⟩ := List.mem_filterMap.1 hf
      exact (accepted?_eq_some_iff.1 hvisit).2
  obtain ⟨hd, rfl, htree⟩ := of_splitDirectory_eq_ok hr hall
  rw [htree, Batch.verdicts_ofVerdicts]
  exact ⟨hd, hall.paths, hruns⟩

/-! ## What disturbs a file -/

/-- The source of the entry, which was split, stood in the place. -/
def SplitFrom (tree : Tree) (place : Place) (entry : Path × Verdict) : Prop :=
  ∃ outcome, entry.2 = .split outcome ∧ Leads tree entry.1 place

/-- The backup of the entry, which was split, was put in the place. -/
def BackedUpTo (tree : Tree) (place : Place) (entry : Path × Verdict) : Prop :=
  ∃ outcome backup, entry.2 = .split outcome ∧ outcome.backup = some backup ∧
    Leads tree backup place

/-- In its turn a class file of the entry was written to the place. If the split failed, that is one
of those before the first that could not be written, and it was removed again; or all of them were
written and have stayed, when it was the source that could not be renamed. -/
inductive Overwrites (o : Options) (tree : Tree) (place : Place) : Path × Verdict → Prop where
  | split {source : Path} {outcome : Outcome} {file : ClassFile} :
      file ∈ outcome.files → Leads tree file.path place →
      Overwrites o tree place (source, .split outcome)
  | failed {source path : Path} {fault : Files.Fault} {front rest : List ClassFile}
      {file : ClassFile} :
      prepare o tree source = .ok (front ++ rest) → Reached tree front rest → file ∈ front →
      Leads tree file.path place → Overwrites o tree place (source, .failed (.io path fault))

/-- One of the entries overwrites the place when its turn comes. -/
inductive Overwritten (o : Options) (place : Place) : Tree → List (Path × Verdict) → Prop where
  | here {tree : Tree} {entry : Path × Verdict} {verdicts : List (Path × Verdict)} :
      Overwrites o tree place entry → Overwritten o place tree (entry :: verdicts)
  | later {tree mid : Tree} {file : Path} {verdict : Verdict} {verdicts : List (Path × Verdict)} :
      (judge o file).ending tree = (.ok verdict, mid) → Overwritten o place mid verdicts →
      Overwritten o place tree ((file, verdict) :: verdicts)

section

variable {e : Path × Verdict}

theorem SplitFrom.transfer (hs : tree.SameDirectories mid) (h : SplitFrom tree place e) :
    SplitFrom mid place e := by
  obtain ⟨outcome, he, hl⟩ := h
  exact ⟨outcome, he, hl.transfer hs⟩

theorem BackedUpTo.transfer (hs : tree.SameDirectories mid) (h : BackedUpTo tree place e) :
    BackedUpTo mid place e := by
  obtain ⟨outcome, backup, he, hb, hl⟩ := h
  exact ⟨outcome, backup, he, hb, hl.transfer hs⟩

end

/-- What a turn can do to a place. -/
inductive Change (o : Options) (tree : Tree) (place : Place) (e : Path × Verdict) (after : Tree) :
    Prop where
  | none : after.get? place = tree.get? place → Change o tree place e after
  | overwritten : Overwrites o tree place e → (o.overwrite = false → tree.get? place = none) →
      Change o tree place e after
  | source : SplitFrom tree place e → Change o tree place e after
  | backup : BackedUpTo tree place e → after.get? place ≠ none → Change o tree place e after

theorem Turn.change (h : tree.Plain) (hacc : accepts [o.extension] file = true)
    (ht : Turn o tree file verdict after) (place : Place) :
    Change o tree place (file, verdict) after := by
  cases ht with
  | idle _ => exact .none rfl
  | @failed front _ _ _ _ hp hreached hwithin =>
    obtain ⟨doc, decls, name, dir, hprepared⟩ := exists_prepared h hacc hp
    by_cases hclass : ∃ f ∈ front, Leads tree f.path place
    · obtain ⟨f, hf, hl⟩ := hclass
      exact .overwritten (.failed hp hreached hf hl) fun hkeep =>
        hprepared.free h hkeep (List.mem_append_left _ hf) hl
    · exact .none (hwithin.other fun f hf hl => hclass ⟨f, hf, hl⟩)
  | @split files mid _ p q hp _ hwritten hs hq hmoved =>
    obtain ⟨doc, decls, name, dir, hprepared⟩ := exists_prepared h hacc hp
    by_cases hneq : place = q
    · refine .backup ⟨_, _, rfl, rfl, hneq ▸ hq⟩ ?_
      rw [hmoved.get?, if_pos hneq, hs.unique hprepared.leads,
        hwritten.other fun f hf hl => (hprepared.beside hf hl).2 rfl, hprepared.text]
      exact Option.some_ne_none _
    · by_cases hnep : place = p
      · exact .source ⟨_, rfl, hnep ▸ hs⟩
      · by_cases hclass : ∃ f ∈ files, Leads tree f.path place
        · obtain ⟨f, hf, hl⟩ := hclass
          exact .overwritten (.split hf hl) fun hkeep => hprepared.free h hkeep hf hl
        · refine .none ?_
          rw [hmoved.get?, if_neg hneq, if_neg hnep,
            hwritten.other fun f hf hl => hclass ⟨f, hf, hl⟩]

theorem Turn.keeps (h : tree.Plain) (hacc : accepts [o.extension] file = true)
    (ht : Turn o tree file verdict after) (hg : tree.get? place = some entry)
    (hsource : ¬ SplitFrom tree place (file, verdict))
    (hbackup : ¬ BackedUpTo tree place (file, verdict))
    (hover : o.overwrite = true → ¬ Overwrites o tree place (file, verdict)) :
    after.get? place = some entry := by
  cases ht.change h hacc place with
  | none hsame => rw [hsame, hg]
  | overwritten hd hfree =>
    cases ho : o.overwrite with
    | false =>
      rw [hfree ho] at hg
      cases hg
    | true => exact absurd hd (hover ho)
  | source hd => exact absurd hd hsource
  | backup hd _ => exact absurd hd hbackup

/-- A file that no turn disturbs stays as it is through the whole run. -/
theorem Runs.keeps (h : tree.Plain) (hr : Runs o tree verdicts after)
    (hg : tree.get? place = some entry) (hsource : ∀ e ∈ verdicts, ¬ SplitFrom tree place e)
    (hbackup : ∀ e ∈ verdicts, ¬ BackedUpTo tree place e)
    (hover : o.overwrite = true → ¬ Overwritten o place tree verdicts) :
    after.get? place = some entry := by
  induction hr with
  | done => exact hg
  | turn hacc hone ht _ ih =>
    have hback := ht.same.symm
    refine ih (ht.plain h) ?_ ?_ ?_ ?_
    · exact ht.keeps h hacc hg (hsource _ (by simp)) (hbackup _ (by simp))
        fun ho hd => hover ho (.here hd)
    · exact fun e he hd => hsource e (by simp [he]) (hd.transfer hback)
    · exact fun e he hd => hbackup e (by simp [he]) (hd.transfer hback)
    · exact fun ho hd => hover ho (.later hone hd)

/-- When files may not be replaced, only splits and backups disturb a file. -/
theorem Runs.keeps_of_keep (h : tree.Plain) (hkeep : o.overwrite = false)
    (hr : Runs o tree verdicts after) (hg : tree.get? place = some entry)
    (hsource : ∀ e ∈ verdicts, ¬ SplitFrom tree place e)
    (hbackup : ∀ e ∈ verdicts, ¬ BackedUpTo tree place e) : after.get? place = some entry := by
  refine hr.keeps h hg hsource hbackup fun hover => ?_
  rw [hkeep] at hover
  cases hover

/-! ## Files that wait for their turn -/

/-- Files to be judged stand where their paths lead, and no two of them are the same. -/
structure Awaits (tree : Tree) (files : List Path) : Prop where
  present : ∀ file ∈ files, ∀ place, Leads tree file place → tree.get? place ≠ none
  apart : files.Pairwise fun earlier later => ¬ Meet tree earlier later

namespace Awaits

variable {e : Path × Verdict}

theorem of_append_left {files more : List Path} (ha : Awaits tree (files ++ more)) :
    Awaits tree files :=
  ⟨fun file hf => ha.present file (List.mem_append_left _ hf), (List.pairwise_append.1 ha.apart).1⟩

/-- Nothing is split from a place where nothing stands. -/
theorem not_splitFrom (ha : Awaits tree (verdicts.map Prod.fst)) (hfree : tree.get? place = none)
    (he : e ∈ verdicts) : ¬ SplitFrom tree place e := by
  rintro ⟨_, _, hl⟩
  exact ha.present e.1 (List.mem_map_of_mem he) place hl hfree

/-- No other file is in the place of a file. -/
theorem alone (ha : Awaits tree ((before ++ e :: behind).map Prod.fst))
    (hl : Leads tree e.1 place) : ∀ e' ∈ before ++ behind, ¬ Leads tree e'.1 place := by
  have hpair := List.pairwise_map.1 ha.apart
  obtain ⟨_, hrest, hbefore⟩ := List.pairwise_append.1 hpair
  intro e' he' hl'
  rcases List.mem_append.1 he' with he' | he'
  · exact hbefore e' he' e (by simp) ⟨place, hl', hl⟩
  · exact (List.pairwise_cons.1 hrest).1 e' he' ⟨place, hl, hl'⟩

end Awaits

theorem awaits_filesBelow {extensions : List String} (h : tree.Plain) (hn : tree.Named)
    (hd : Files.isDirectory tree directory = true) :
    Awaits tree (filesBelow tree extensions directory) := by
  obtain ⟨dir, names, hfound⟩ := Files.walk_found h hn hd
  constructor
  · intro file hf place hl
    obtain ⟨visit, hmem, hv⟩ := List.mem_filterMap.1 hf
    obtain ⟨content, hg⟩ := hfound.file visit hmem place ⟨file, (accepted?_eq_some_iff.1 hv).1, hl⟩
    rw [hg]
    simp
  · refine List.Pairwise.filterMap _ ?_ hfound.apart
    rintro v w happart file hfile other hother ⟨place, hl, hl'⟩
    exact happart place ⟨file, (accepted?_eq_some_iff.1 hfile).1, hl⟩
      ⟨other, (accepted?_eq_some_iff.1 hother).1, hl'⟩

/-- When files may not be replaced, a turn removes nothing but the source of its own split. -/
theorem Turn.awaits {files : List Path} (h : tree.Plain) (hkeep : o.overwrite = false)
    (hacc : accepts [o.extension] file = true) (ht : Turn o tree file verdict after)
    (ha : Awaits tree (file :: files)) : Awaits after files := by
  obtain ⟨hfirst, hrest⟩ := List.pairwise_cons.1 ha.apart
  have hback := ht.same.symm
  refine ⟨fun g hg place hl => ?_, hrest.imp ?_⟩
  · have hlg : Leads tree g place := hl.transfer hback
    have hpresent := ha.present g (by simp [hg]) place hlg
    cases ht.change h hacc place with
    | none hsame =>
      rw [hsame]
      exact hpresent
    | overwritten _ hfree => exact absurd (hfree hkeep) hpresent
    | source hd =>
      obtain ⟨_, _, hl⟩ := hd
      exact absurd ⟨place, hl, hlg⟩ (hfirst g hg)
    | backup _ hsome => exact hsome
  · rintro f g happart ⟨place, hf, hg⟩
    exact happart ⟨place, hf.transfer hback, hg.transfer hback⟩

theorem Runs.awaits {files : List Path} (h : tree.Plain) (hkeep : o.overwrite = false)
    (hr : Runs o tree verdicts after) (ha : Awaits tree (verdicts.map Prod.fst ++ files)) :
    Awaits after files := by
  induction hr with
  | done => exact ha
  | turn hacc _ ht _ ih => exact ih (ht.plain h) (ht.awaits h hkeep hacc ha)

/-! ## Entries of a run that were split -/

/-- A source that was split, and the trees around its turn. -/
theorem Runs.exists_turn (hr : Runs o tree (before ++ (source, .split outcome) :: behind) after) :
    ∃ here next, Runs o tree before here ∧ accepts [o.extension] source = true ∧
      Runs o here [(source, .split outcome)] next ∧ Turn o here source (.split outcome) next ∧
      Runs o next behind after := by
  obtain ⟨here, hbefore, hrest⟩ := hr.of_append
  cases hrest with
  | turn hacc hone ht hbehind =>
    exact ⟨here, _, hbefore, hacc, .turn hacc hone ht .done, ht, hbehind⟩

/-- Only its own backup can be put in the place of a class file during the turn that writes it. -/
theorem Turn.class_written {file : ClassFile} (h : tree.Plain)
    (hacc : accepts [o.extension] source = true)
    (ht : Turn o tree source (.split outcome) after) (hf : file ∈ outcome.files) :
    ∃ place name dir, Leads tree file.path place ∧ Leads tree source (name :: dir) ∧
      place = classPlace o file.declaration dir ∧ IsName file.declaration.header.name ∧
      place ≠ name :: dir ∧ (o.overwrite = false → tree.get? place = none) ∧
      (BackedUpTo tree place (source, .split outcome) ∨
        after.get? place = some (.file file.content.toUTF8)) := by
  cases ht with
  | idle hnone => cases hnone
  | @split files mid _ p q hp hw hwritten hs hq hmoved =>
    obtain ⟨doc, decls, name, dir, hprepared⟩ := exists_prepared h hacc hp
    obtain ⟨place, hl, _⟩ := (writable_iff h).1 (hw file hf)
    obtain ⟨hplace, hne⟩ := hprepared.beside hf hl
    refine ⟨place, name, dir, hl, hprepared.leads, hplace, ?_, hne, ?_, ?_⟩
    · exact hprepared.planned.isName hprepared.declarations hf
    · exact fun hkeep => hprepared.free h hkeep hf hl
    · by_cases hbackup : place = q
      · rw [hbackup]
        exact .inl ⟨_, _, rfl, rfl, hq⟩
      · right
        rw [hs.unique hprepared.leads] at hmoved
        rw [hmoved.get?, if_neg hbackup, if_neg hne]
        exact hprepared.written hwritten hf hl

/-- A split puts the backup beside the source, unless the suffix has a slash. -/
theorem Runs.exists_backup {path : Path} (h : tree.Plain) (hr : Runs o tree verdicts after)
    (hslash : '/' ∉ o.backupSuffix.toList) (he : (source, .split outcome) ∈ verdicts)
    (hb : outcome.backup = some path) (hl : Leads tree path place) :
    ∃ name dir, accepts [o.extension] source = true ∧ Leads tree source (name :: dir) ∧
      place = (name ++ o.backupSuffix) :: dir := by
  obtain ⟨before, behind, rfl⟩ := List.append_of_mem he
  obtain ⟨here, next, hbefore, hacc, _, ht, _⟩ := hr.exists_turn
  cases ht with
  | idle hnone => cases hnone
  | split hp _ _ _ _ _ =>
    obtain ⟨doc, decls, name, dir, hprepared⟩ := exists_prepared (hbefore.plain h) hacc hp
    have hs := hprepared.leads.transfer hbefore.same.symm
    cases hb
    exact ⟨name, dir, hacc, hs, hs.withSuffix hslash hl⟩

/-- A backup in the place of a class file is not moved: the source stood there itself. -/
theorem Runs.splitFrom_of_backedUpTo {className : String} {dir : Place} (h : tree.Plain)
    (hr : Runs o tree verdicts after) (hslash : '/' ∉ o.backupSuffix.toList)
    (hclass : IsName className) {e : Path × Verdict} (he : e ∈ verdicts)
    (hb : BackedUpTo tree ((className ++ "." ++ o.extension) :: dir) e) :
    SplitFrom tree ((className ++ "." ++ o.extension) :: dir) e := by
  obtain ⟨source, verdict⟩ := e
  obtain ⟨outcome, backup, rfl, hbackup, hl⟩ := hb
  obtain ⟨name, dir', hacc, hs, hplace⟩ := hr.exists_backup h hslash he hbackup hl
  obtain ⟨hname, hdir⟩ := List.cons.inj hplace
  obtain ⟨_, last, _, hseg, hlast, _, _, hcons⟩ := hs.exists_segments
  obtain ⟨rfl, _⟩ := List.cons.inj hcons
  have hwhole : last = (className ++ "." ++ o.extension).toList := by
    refine eq_of_begins hacc hseg hlast hclass ?_
    rw [hname, String.toList_append, String.toList_ofList]
    exact List.prefix_append last _
  refine ⟨outcome, rfl, ?_⟩
  rw [hwhole, String.ofList_toList, ← hdir] at hs
  exact hs

/-- A class file stays, unless a later turn takes its place: when files may be replaced, with a class
file or by splitting what stands there; with a slash in the suffix, with a backup. -/
theorem Runs.class_kept {file : ClassFile} (h : tree.Plain)
    (hr : Runs o tree ((source, .split outcome) :: behind) after)
    (ha : o.overwrite = false → Awaits tree (((source, .split outcome) :: behind).map Prod.fst))
    (hf : file ∈ outcome.files) :
    ∃ place name dir, Leads tree file.path place ∧ Leads tree source (name :: dir) ∧
      place = classPlace o file.declaration dir ∧
      (after.get? place = some (.file file.content.toUTF8) ∨
        (o.overwrite = true ∧
          ((∃ next, Runs o tree [(source, .split outcome)] next ∧
              Overwritten o place next behind) ∨
            ∃ later ∈ behind, SplitFrom tree place later)) ∨
        ('/' ∈ o.backupSuffix.toList ∧
          ∃ e ∈ (source, .split outcome) :: behind, BackedUpTo tree place e)) := by
  have hrun := hr
  cases hr with
  | @turn _ next _ _ _ _ hacc hjudge ht hbehind =>
    obtain ⟨place, name, dir, hl, hs, hplace, hclass, hne, hfree, hwritten⟩ :=
      ht.class_written h hacc hf
    refine ⟨place, name, dir, hl, hs, hplace, ?_⟩
    by_cases hslash : '/' ∈ o.backupSuffix.toList ∧
        ∃ e ∈ (source, .split outcome) :: behind, BackedUpTo tree place e
    · exact .inr (.inr hslash)
    by_cases hover : o.overwrite = true ∧
        (Overwritten o place next behind ∨ ∃ later ∈ behind, SplitFrom tree place later)
    · refine .inr (.inl (hover.imp_right (.imp_left fun hd => ⟨next, ?_, hd⟩)))
      exact .turn hacc hjudge ht .done
    left
    -- A later split has its source where a file stood before, which could not be replaced.
    have hsplit : ∀ e ∈ behind, ¬ SplitFrom tree place e := by
      intro e he hd
      cases ho : o.overwrite with
      | false => exact (ha ho).not_splitFrom (hfree ho) (List.mem_cons_of_mem _ he) hd
      | true => exact hover ⟨ho, .inr ⟨e, he, hd⟩⟩
    -- Without a slash no backup gets in the way, but where a split had its source.
    have hbackup : ∀ e ∈ (source, .split outcome) :: behind, ¬ BackedUpTo tree place e := by
      intro e he hb
      have hplain : '/' ∉ o.backupSuffix.toList := fun hsuffix => hslash ⟨hsuffix, e, he, hb⟩
      have hfrom : SplitFrom tree place e := by
        rw [hplace] at hb ⊢
        exact hrun.splitFrom_of_backedUpTo h hplain hclass he hb
      rcases List.mem_cons.1 he with rfl | he
      · obtain ⟨_, _, hls⟩ := hfrom
        exact hne (hls.unique hs)
      · exact hsplit e he hfrom
    have hback := ht.same.symm
    refine hbehind.keeps (ht.plain h) (hwritten.resolve_left (hbackup _ (by simp))) ?_ ?_ ?_
    · exact fun e he hd => hsplit e he (hd.transfer hback)
    · exact fun e he hd => hbackup e (by simp [he]) (hd.transfer hback)
    · exact fun ho hd => hover ⟨ho, .inl hd⟩

end

end Split
end SourceSplit
