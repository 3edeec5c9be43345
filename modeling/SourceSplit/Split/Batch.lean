import SourceSplit.Split.Collect
import SourceSplit.Split.Single

/-!
# SourceSplit.Split.Batch

Splitting every file below a directory. Each file is split on its own: a failure is noted and the
work goes on with the next file. What became of a file is added to the batch, and counted, as soon
as it is known.
-/

namespace SourceSplit
namespace Split

open Source
open Log (Event)

inductive Verdict where
  | split (outcome : Outcome)
  | skipped (count : Nat)
  | unread (fault : Files.Fault)
  | failed (failure : Failure)
  deriving DecidableEq, Repr

def Verdict.outcome? : Verdict → Option Outcome
  | .split outcome => some outcome
  | _ => none

structure Stats where
  totalFiles : Nat
  splitFiles : Nat
  totalClasses : Nat
  skippedFiles : Nat
  errorFiles : Nat
  errorPaths : List Path
  deriving DecidableEq, Repr

/-- The counts with one more file. -/
def Stats.add (stats : Stats) (file : Path) : Verdict → Stats
  | .split outcome =>
    { stats with
      splitFiles := stats.splitFiles + 1
      totalClasses := stats.totalClasses + outcome.files.length }
  | .skipped _ => { stats with skippedFiles := stats.skippedFiles + 1 }
  | .unread _ | .failed _ =>
    { stats with
      errorFiles := stats.errorFiles + 1
      errorPaths := stats.errorPaths ++ [file] }

/-- The files of a batch in the order they were looked at, each with what became of it; the
outcomes of those that were split; and the counts. -/
structure Batch where
  verdicts : List (Path × Verdict)
  outcomes : List Outcome
  stats : Stats
  deriving DecidableEq, Repr

namespace Batch

/-- A batch before the first of its files. -/
def start (totalFiles : Nat) : Batch where
  verdicts := []
  outcomes := []
  stats := ⟨totalFiles, 0, 0, 0, 0, []⟩

def add (batch : Batch) (file : Path) (verdict : Verdict) : Batch where
  verdicts := batch.verdicts ++ [(file, verdict)]
  outcomes := batch.outcomes ++ verdict.outcome?.toList
  stats := batch.stats.add file verdict

end Batch

def judgeText (o : Options) (file : Path) (text : String) : Work Verdict := do
  let found := headers text
  Work.report (headerEvents found)
  if found.length < o.minClasses then
    Work.report [.fileSkipped file found.length]
    pure (.skipped found.length)
  else
    match ← Work.attempt (splitText o file text) with
    | .ok outcome => pure (.split outcome)
    | .error failure =>
      Work.report [.splitFailed file failure]
      pure (.failed failure)

def judge (o : Options) (file : Path) : Work Verdict := do
  match ← Work.look fun tree => .ok (Files.readText tree file) with
  | .ok text => judgeText o file text
  | .error fault =>
    Work.report [.readFailed file fault]
    pure (.unread fault)

def judgeAll (o : Options) (batch : Batch) : List Path → Work Batch
  | [] => pure batch
  | file :: files => do
    let verdict ← judge o file
    judgeAll o (batch.add file verdict) files

def splitDirectory (o : Options) (directory : Path) : Work Batch := do
  Work.look fun tree =>
    if Files.isDirectory tree directory then .ok () else .error (.inputMissing directory)
  Work.report [.scanning directory]
  let files ← collect [o.extension] directory
  let batch ← judgeAll o (.start files.length) files
  Work.report [.batchDone batch.stats.splitFiles batch.stats.totalFiles batch.stats.totalClasses]
  pure batch

end Split
end SourceSplit
