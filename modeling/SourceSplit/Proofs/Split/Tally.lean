import SourceSplit.Proofs.Split.BatchFiles
import SourceSplit.Proofs.Split.DryRun

/-!
# SourceSplit.Proofs.Split.Tally

The accounts of a batch, whatever links the tree has and whether the run is dry or not. At its turn
each file that was found goes on one of three lists: it is split, skipped, or noted as an error,
according to the tree as the turns before have left it (`Tally`). The batch counts as it goes; its
counts are right before the first file, and one more file keeps them right (`Batch.Counted`). So
they are the lengths of the three lists, and add up (`splitDirectory_tallies`).
-/

namespace SourceSplit
namespace Split

open Source
open Files (Tree readText)

def Verdict.isSkipped : Verdict → Bool
  | .skipped _ => true
  | _ => false

def Verdict.isError : Verdict → Bool
  | .unread _ | .failed _ => true
  | _ => false

def outcomesOf (verdicts : List (Path × Verdict)) : List Outcome :=
  verdicts.filterMap fun v => v.2.outcome?

def skippedOf (verdicts : List (Path × Verdict)) : List Path :=
  (verdicts.filter fun v => v.2.isSkipped).map Prod.fst

def errorsOf (verdicts : List (Path × Verdict)) : List Path :=
  (verdicts.filter fun v => v.2.isError).map Prod.fst

/-- The files that were read and had too few classes. -/
def Batch.skippedPaths (batch : Batch) : List Path :=
  skippedOf batch.verdicts

/-- How many class files outcomes have between them. -/
def countFiles : List Outcome → Nat
  | [] => 0
  | outcome :: outcomes => outcome.files.length + countFiles outcomes

theorem countFiles_append (outcomes more : List Outcome) :
    countFiles (outcomes ++ more) = countFiles outcomes + countFiles more := by
  induction outcomes with
  | nil => exact (Nat.zero_add _).symm
  | cons outcome outcomes ih => rw [List.cons_append, countFiles, ih, countFiles, Nat.add_assoc]

/-- Turns for the files, one after the other. Each adds its file to one of three lists, which are
the outcomes, the files skipped and the files with an error. -/
inductive Tally (o : Options) :
    Tree → List Path → List Outcome → List Path → List Path → Tree → Prop where
  | done {tree : Tree} : Tally o tree [] [] [] [] tree
  | split {tree mid after : Tree} {file : Path} {files skipped errors : List Path}
      {outcome : Outcome} {outcomes : List Outcome} {text : String} :
      readText tree file = .ok text → max 1 o.minClasses ≤ (headers text).length →
      (splitFile o file).ending tree = (.ok outcome, mid) → outcome.source = file →
      outcome.files.length = (headers text).length →
      Tally o mid files outcomes skipped errors after →
      Tally o tree (file :: files) (outcome :: outcomes) skipped errors after
  | skipped {tree after : Tree} {file : Path} {files skipped errors : List Path}
      {outcomes : List Outcome} {text : String} :
      readText tree file = .ok text → (headers text).length < o.minClasses →
      Tally o tree files outcomes skipped errors after →
      Tally o tree (file :: files) outcomes (file :: skipped) errors after
  | unread {tree after : Tree} {file : Path} {files skipped errors : List Path}
      {outcomes : List Outcome} {fault : Files.Fault} :
      readText tree file = .error fault → Tally o tree files outcomes skipped errors after →
      Tally o tree (file :: files) outcomes skipped (file :: errors) after
  | failed {tree mid after : Tree} {file : Path} {files skipped errors : List Path}
      {outcomes : List Outcome} {text : String} {failure : Failure} :
      readText tree file = .ok text → o.minClasses ≤ (headers text).length →
      (splitFile o file).ending tree = (.error failure, mid) →
      Tally o mid files outcomes skipped errors after →
      Tally o tree (file :: files) outcomes skipped (file :: errors) after

section

variable {o : Options} {tree mid after : Tree} {directory file : Path} {batch : Batch}
  {files skipped errors : List Path} {outcome : Outcome} {outcomes : List Outcome}
  {verdict : Verdict} {verdicts : List (Path × Verdict)} {text : String}

namespace Tally

theorem length_eq (h : Tally o tree files outcomes skipped errors after) :
    files.length = outcomes.length + skipped.length + errors.length := by
  induction h with
  | done => rfl
  | split _ _ _ _ _ _ ih =>
    simp only [List.length_cons]
    omega
  | skipped _ _ _ ih =>
    simp only [List.length_cons]
    omega
  | unread _ _ ih =>
    simp only [List.length_cons]
    omega
  | failed _ _ _ _ ih =>
    simp only [List.length_cons]
    omega

theorem sources_sublist (h : Tally o tree files outcomes skipped errors after) :
    (outcomes.map (·.source)).Sublist files := by
  induction h with
  | done => exact .slnil
  | split _ _ _ hsource _ _ ih =>
    rw [List.map_cons, hsource]
    exact ih.cons_cons _
  | skipped _ _ _ ih => exact ih.cons _
  | unread _ _ ih => exact ih.cons _
  | failed _ _ _ _ ih => exact ih.cons _

theorem errors_sublist (h : Tally o tree files outcomes skipped errors after) :
    errors.Sublist files := by
  induction h with
  | done => exact .slnil
  | split _ _ _ _ _ _ ih => exact ih.cons _
  | skipped _ _ _ ih => exact ih.cons _
  | unread _ _ ih => exact ih.cons_cons _
  | failed _ _ _ _ ih => exact ih.cons_cons _

end Tally

/-! ## A turn on the accounts -/

/-- A source that is split has a class file for each header of its text, and there is one. -/
theorem length_files_of_splitFile (hread : readText tree file = .ok text)
    (h : (splitFile o file).ending tree = (.ok outcome, after)) :
    outcome.source = file ∧ outcome.files.length = (headers text).length ∧
      0 < (headers text).length := by
  rw [ending_splitFile] at h
  cases hp : prepare o tree file with
  | error failure =>
    rw [hp] at h
    cases h
  | ok files =>
    obtain ⟨text', doc, decls, hread', hdoc, hdecls, hplan⟩ := prepare_eq_ok_iff.1 hp
    have hcount : files.length = (headers text).length ∧ 0 < (headers text).length := by
      have htext : doc.text = text :=
        (text_of_ofText? hdoc).trans (Except.ok.inj (hread'.symm.trans hread))
      have hplanned := (planFrom_eq_ok_iff.1 hplan).declarations
      have hheaders := map_header_of_declarations hdecls
      rw [htext] at hheaders
      rw [← hheaders, ← hplanned, List.length_map, List.length_map]
      refine ⟨rfl, List.length_pos_iff.2 ?_⟩
      rintro rfl
      exact ne_nil_of_declarations hdecls hplanned.symm
    rw [hp] at h
    simp only at h
    split at h
    · cases h
      exact ⟨rfl, hcount⟩
    · obtain ⟨_, hdone⟩ | ⟨_, _, _, hfailed⟩ := ending_commit o file files tree
      · rw [hdone] at h
        cases h
        exact ⟨rfl, hcount⟩
      · rw [hfailed] at h
        cases h

/-- The turn of a file puts it on one of the lists. -/
theorem judge_tallies (o : Options) (tree : Tree) (file : Path) :
    ∃ verdict mid, (judge o file).ending tree = (.ok verdict, mid) ∧
      ∀ {files : List Path} {verdicts : List (Path × Verdict)} {after : Tree},
        Tally o mid files (outcomesOf verdicts) (skippedOf verdicts) (errorsOf verdicts) after →
        Tally o tree (file :: files) (outcomesOf ((file, verdict) :: verdicts))
          (skippedOf ((file, verdict) :: verdicts)) (errorsOf ((file, verdict) :: verdicts))
          after := by
  rw [ending_judge]
  cases hread : readText tree file with
  | error fault => exact ⟨_, _, rfl, fun ht => .unread hread ht⟩
  | ok text =>
    simp only
    split
    · rename_i hfew
      exact ⟨_, _, rfl, fun ht => .skipped hread hfew ht⟩
    · rename_i hmany
      refine ⟨_, _, rfl, fun ht => ?_⟩
      cases hending : (splitFile o file).ending tree with
      | mk result mid =>
        rw [hending] at ht
        cases result with
        | error failure => exact .failed hread (Nat.not_lt.1 hmany) hending ht
        | ok outcome =>
          obtain ⟨hsource, hcount, hpos⟩ := length_files_of_splitFile hread hending
          have hmin : max 1 o.minClasses ≤ (headers text).length := by omega
          exact .split hread hmin hending hsource hcount ht

theorem judgeAll_tallies (o : Options) (files : List Path) (tree : Tree) :
    ∃ verdicts after, JudgesAll o tree files verdicts after ∧
      Tally o tree files (outcomesOf verdicts) (skippedOf verdicts) (errorsOf verdicts) after := by
  induction files generalizing tree with
  | nil => exact ⟨[], tree, judgesAll_nil, .done⟩
  | cons file files ih =>
    obtain ⟨verdict, mid, hone, hturn⟩ := judge_tallies o tree file
    obtain ⟨verdicts, after, hall, htally⟩ := ih mid
    exact ⟨(file, verdict) :: verdicts, after, hall.cons hone, hturn htally⟩

/-! ## Counting -/

/-- What a batch has listed and counted is what became of its files so far. -/
structure Batch.Counted (batch : Batch) (totalFiles : Nat) : Prop where
  outcomes : batch.outcomes = outcomesOf batch.verdicts
  errors : batch.stats.errorPaths = errorsOf batch.verdicts
  total : batch.stats.totalFiles = totalFiles
  split : batch.stats.splitFiles = batch.outcomes.length
  skipped : batch.stats.skippedFiles = batch.skippedPaths.length
  error : batch.stats.errorFiles = batch.stats.errorPaths.length
  classes : batch.stats.totalClasses = countFiles batch.outcomes

theorem counted_start (totalFiles : Nat) : (Batch.start totalFiles).Counted totalFiles :=
  ⟨rfl, rfl, rfl, rfl, rfl, rfl, rfl⟩

/-- One more file keeps the counts right: each verdict counts where its file is listed. -/
theorem Batch.Counted.add {totalFiles : Nat} (h : batch.Counted totalFiles) (file : Path)
    (verdict : Verdict) : (batch.add file verdict).Counted totalFiles where
  outcomes := by
    rw [Batch.add, h.outcomes, outcomesOf, outcomesOf, List.filterMap_append]
    cases verdict <;> rfl
  errors := by
    rw [Batch.add, errorsOf, List.filter_append, List.map_append, ← errorsOf, ← h.errors]
    cases verdict <;> simp [Stats.add, Verdict.isError]
  total := by cases verdict <;> exact h.total
  split := by cases verdict <;> simp [Batch.add, Stats.add, Verdict.outcome?, h.split]
  skipped := by
    have hskipped := h.skipped
    simp only [Batch.skippedPaths, skippedOf] at hskipped ⊢
    cases verdict <;> simp [Batch.add, Stats.add, Verdict.isSkipped, hskipped]
  error := by cases verdict <;> simp [Batch.add, Stats.add, h.error]
  classes := by
    rw [Batch.add, countFiles_append]
    cases verdict <;> simp [Stats.add, Verdict.outcome?, countFiles, h.classes]

theorem Batch.Counted.addAll {totalFiles : Nat} (h : batch.Counted totalFiles)
    (verdicts : List (Path × Verdict)) : (batch.addAll verdicts).Counted totalFiles := by
  induction verdicts generalizing batch with
  | nil => exact h
  | cons entry verdicts ih => exact ih (h.add entry.1 entry.2)

theorem counted_ofVerdicts (verdicts : List (Path × Verdict)) :
    (Batch.ofVerdicts verdicts).Counted verdicts.length :=
  (counted_start _).addAll verdicts

/-! ## The accounts of a batch -/

/-- The counts of a batch are right: they are the lengths of the lists that the files found were
put on, and every file is on one of them. -/
structure Exact (batch : Batch) (files : List Path) : Prop where
  total : batch.stats.totalFiles = files.length
  sum : batch.stats.totalFiles =
    batch.stats.splitFiles + batch.stats.skippedFiles + batch.stats.errorFiles
  split : batch.stats.splitFiles = batch.outcomes.length
  skipped : batch.stats.skippedFiles = batch.skippedPaths.length
  error : batch.stats.errorFiles = batch.stats.errorPaths.length
  classes : batch.stats.totalClasses = countFiles batch.outcomes

theorem Tally.exact
    (h : Tally o tree files batch.outcomes batch.skippedPaths batch.stats.errorPaths after)
    (hcounted : batch.Counted files.length) : Exact batch files := by
  refine ⟨hcounted.total, ?_, hcounted.split, hcounted.skipped, hcounted.error, hcounted.classes⟩
  rw [hcounted.total, hcounted.split, hcounted.skipped, hcounted.error]
  exact h.length_eq

/-- A batch accounts for each file that it found. -/
theorem splitDirectory_tallies (hr : ((splitDirectory o directory).run tree).result = .ok batch) :
    ∃ files, ((collect [o.extension] directory).run tree).result = .ok files ∧
      Tally o tree files batch.outcomes batch.skippedPaths batch.stats.errorPaths
        ((splitDirectory o directory).run tree).tree ∧
      (batch.outcomes.map (·.source)).Sublist files ∧ batch.stats.errorPaths.Sublist files ∧
      Exact batch files := by
  obtain ⟨verdicts, after, hall, htally⟩ :=
    judgeAll_tallies o (filesBelow tree [o.extension] directory) tree
  obtain ⟨_, rfl, htree⟩ := of_splitDirectory_eq_ok hr hall
  have hcounted := counted_ofVerdicts verdicts
  rw [← List.length_map Prod.fst, hall.paths] at hcounted
  have hlists : Tally o tree (filesBelow tree [o.extension] directory)
      (Batch.ofVerdicts verdicts).outcomes (Batch.ofVerdicts verdicts).skippedPaths
      (Batch.ofVerdicts verdicts).stats.errorPaths after := by
    rw [hcounted.outcomes, hcounted.errors, Batch.skippedPaths, Batch.verdicts_ofVerdicts]
    exact htally
  rw [htree]
  exact ⟨filesBelow tree [o.extension] directory, rfl, hlists, hlists.sources_sublist,
    hlists.errors_sublist, hlists.exact hcounted⟩

end

/-- Two files are found, and both are split. -/
theorem splitDirectory_tallies_crossed :
    ∃ batch, ((splitDirectory crossedOptions ⟨"/"⟩).run crossedTree).result = .ok batch ∧
      batch.stats.totalFiles = 2 ∧ batch.stats.skippedFiles + batch.stats.errorFiles = 0 := by
  obtain ⟨after, hending, _⟩ := splitDirectory_crossedTree
  have hresult := congrArg Prod.fst hending
  obtain ⟨files, hfiles, _, _, _, hexact⟩ := splitDirectory_tallies hresult
  cases hfiles
  have htotal : _ = 2 := hexact.total.trans (congrArg List.length filesBelow_crossedTree)
  have hsplit : _ = 2 := hexact.split
  have hsum := hexact.sum
  exact ⟨_, hresult, htotal, by omega⟩

end Split
end SourceSplit
