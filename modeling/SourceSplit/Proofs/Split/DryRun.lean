import SourceSplit.Proofs.Split.Turn

/-!
# SourceSplit.Proofs.Split.DryRun

A dry run against the real run on the same tree, whatever links the tree has. All that is decided
before the first file is written does not depend on whether the run is dry (`prepare_dryRun`), and
behind that nothing can fail but the file system (`ending_commit`). So a dry run fails as the real
run does, and foretells what the real run comes to (`dryRun_predicts`).
-/

namespace SourceSplit
namespace Split

open Source
open Files (Tree)

/-- The options with the run made dry, or not. -/
def Options.dry (o : Options) (dryRun : Bool) : Options :=
  { o with dryRun := dryRun }

/-- What a dry run that ended in `dry` says of the real run on the same tree, which ended in
`real`. -/
structure Predicts (tree : Tree) (dry real : Except Failure Outcome × Tree) : Prop where
  still : dry.2 = tree
  failed : ∀ failure, dry.1 = .error failure → real = (.error failure, tree)
  split : ∀ outcome, real.1 = .ok outcome → dry.1 = .ok { outcome with backup := none }
  io : ∀ planned failure, dry.1 = .ok planned → real.1 = .error failure →
    ∃ path fault, failure = .io path fault

section

variable {o : Options} {tree after : Tree} {source : Path} {files written : List ClassFile}
  {b : Bool}

theorem planFrom_dryRun {doc : Document} {taken : List Path} {decls : List Declaration} :
    planFrom (o.dry b) tree source doc taken decls = planFrom o tree source doc taken decls := by
  induction decls generalizing taken with
  | nil => rfl
  | cons decl decls ih =>
    simp only [planFrom, ih]
    rfl

theorem prepare_dryRun : prepare (o.dry b) tree source = prepare o tree source := by
  simp only [prepare, prepareText, plan, planFrom_dryRun]

/-! ## What can fail behind the preparation -/

theorem exists_ending_unwriteAll (files : List ClassFile) (tree : Tree) :
    ∃ after, (unwriteAll files).ending tree = (.ok (), after) := by
  induction files generalizing tree with
  | nil => exact ⟨tree, rfl⟩
  | cons file files ih =>
    have hone : ∃ mid, (unwrite file).ending tree = (.ok (), mid) := by
      cases hremove : Files.remove tree file.path with
      | ok mid => exact ⟨mid, ending_unwrite_of_ok hremove⟩
      | error fault => exact ⟨tree, ending_unwrite_of_error hremove⟩
    obtain ⟨mid, hone⟩ := hone
    obtain ⟨after, hall⟩ := ih mid
    exact ⟨after, by rw [unwriteAll, Work.ending_bind_of_ok hone, hall]⟩

theorem io_of_writeFrom {failure : Failure}
    (h : (writeFrom written files).ending tree = (.error failure, after)) :
    ∃ path fault, failure = .io path fault := by
  induction files generalizing written tree with
  | nil => cases h
  | cons file files ih =>
    cases hwrite : Files.writeText tree file.path file.content with
    | ok mid =>
      rw [writeFrom, Work.ending_bind_of_ok (ending_writeFile_of_ok hwrite)] at h
      exact ih h
    | error fault =>
      obtain ⟨mid, hundo⟩ := exists_ending_unwriteAll written tree
      rw [writeFrom, Work.ending_bind_of_ok (ending_writeFile_of_error hwrite),
        Work.ending_bind_of_ok hundo, Work.ending_fail] at h
      cases h
      exact ⟨_, _, rfl⟩

/-- Prepared class files are all delivered, or the file system fails. -/
theorem ending_commit (o : Options) (source : Path) (files : List ClassFile) (tree : Tree) :
    (∃ after, (commit o source files).ending tree =
        (.ok ⟨source, files, some (source.withSuffix o.backupSuffix)⟩, after)) ∨
      ∃ path fault after, (commit o source files).ending tree =
        (.error (.io path fault), after) := by
  rw [commit]
  cases hwrite : (writeAll files).ending tree with
  | mk result mid =>
    cases result with
    | error failure =>
      obtain ⟨path, fault, rfl⟩ := io_of_writeFrom hwrite
      exact .inr ⟨path, fault, mid, Work.ending_bind_of_error hwrite⟩
    | ok =>
      rw [Work.ending_bind_of_ok hwrite]
      cases hrename : Files.rename mid source (source.withSuffix o.backupSuffix) with
      | error fault =>
        exact .inr ⟨source, fault, mid,
          Work.ending_bind_of_error (ending_setAside_of_error hrename)⟩
      | ok after =>
        refine .inl ⟨after, ?_⟩
        rw [Work.ending_bind_of_ok (ending_setAside_of_ok hrename), Work.ending_pure]

/-! ## The two runs -/

theorem splitFile_predicts (o : Options) (tree : Tree) (source : Path) :
    Predicts tree ((splitFile (o.dry true) source).ending tree)
      ((splitFile (o.dry false) source).ending tree) := by
  rw [ending_splitFile, ending_splitFile, prepare_dryRun, prepare_dryRun]
  cases prepare o tree source with
  | error failure =>
    refine ⟨rfl, ?_, nofun, nofun⟩
    intro failure' h
    cases h
    rfl
  | ok files =>
    have hdry : (o.dry true).dryRun = true := rfl
    have hreal : ¬ (o.dry false).dryRun = true := Bool.false_ne_true
    simp only [if_pos hdry, if_neg hreal]
    obtain ⟨after, hdone⟩ | ⟨path, fault, after, hfailed⟩ :=
      ending_commit (o.dry false) source files tree
    · rw [hdone]
      refine ⟨rfl, nofun, ?_, nofun⟩
      intro outcome h
      cases h
      rfl
    · rw [hfailed]
      refine ⟨rfl, nofun, nofun, ?_⟩
      intro planned failure _ h
      cases h
      exact ⟨path, fault, rfl⟩

theorem exists_judgesAll_dry (o : Options) (files : List Path) (tree : Tree) :
    ∃ verdicts, JudgesAll (o.dry true) tree files verdicts tree := by
  induction files with
  | nil => exact ⟨[], judgesAll_nil⟩
  | cons file files ih =>
    have hone : ∃ verdict, (judge (o.dry true) file).ending tree = (.ok verdict, tree) := by
      rw [ending_judge]
      cases Files.readText tree file with
      | error fault => exact ⟨_, rfl⟩
      | ok text =>
        simp only
        split
        · exact ⟨_, rfl⟩
        · rw [(splitFile_predicts o tree file).still]
          exact ⟨_, rfl⟩
    obtain ⟨verdict, hone⟩ := hone
    obtain ⟨verdicts, hall⟩ := ih
    exact ⟨(file, verdict) :: verdicts, hall.cons hone⟩

theorem splitDirectory_dry_still (o : Options) (tree : Tree) (directory : Path) :
    ((splitDirectory (o.dry true) directory).ending tree).2 = tree := by
  cases hd : Files.isDirectory tree directory with
  | false => rw [ending_splitDirectory_of_not hd]
  | true =>
    obtain ⟨verdicts, hall⟩ :=
      exists_judgesAll_dry o (filesBelow tree [o.extension] directory) tree
    have hending : (splitDirectory (o.dry true) directory).ending tree =
        (.ok (.ofVerdicts verdicts), tree) := ending_splitDirectory hd hall
    rw [hending]

/-- A dry run predicts the real run and leaves the tree alone, as a dry batch does. -/
theorem dryRun_predicts (o : Options) (tree : Tree) (source directory : Path) :
    Predicts tree ((splitFile { o with dryRun := true } source).ending tree)
        ((splitFile { o with dryRun := false } source).ending tree) ∧
      ((splitDirectory { o with dryRun := true } directory).ending tree).2 = tree :=
  ⟨splitFile_predicts o tree source, splitDirectory_dry_still o tree directory⟩

end

end Split
end SourceSplit
