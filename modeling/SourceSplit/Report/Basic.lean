import SourceSplit.Digest.Sha256
import SourceSplit.Report.Json
import SourceSplit.Report.Moment
import SourceSplit.Split.Batch
import SourceSplit.Split.TextFile

/-!
# SourceSplit.Report.Basic

The record of a run: when it was, and for each source file what became of its classes, with the
digest of each declaration so that it can be checked against the source. A class file ends with
its declaration, so the declaration is taken from there.
-/

namespace SourceSplit
namespace Report

open Split (ClassFile Failure Outcome Stats)

structure ClassRecord where
  name : String
  output : Path
  start : Nat
  stop : Nat
  sha256 : String
  deriving DecidableEq, Repr

structure FileRecord where
  source : Path
  backup : Option Path
  classes : List ClassRecord
  deriving DecidableEq, Repr

structure RunRecord where
  generatedAt : Moment
  dryRun : Bool
  files : List FileRecord
  /-- Only a batch has them. -/
  stats : Option Stats
  deriving DecidableEq, Repr

/-- The last `length` bytes of a text, if it has that many and they start a character. -/
def lastBytes? (length : Nat) (text : String) : Option (List Char) :=
  let size := Text.byteLength text.toList
  if length ≤ size then Text.slice? (size - length) size text.toList else none

def hashText (cs : List Char) : String :=
  Digest.Sha256.hex (Text.bytes cs)

/-- There is no record of a file that is too short to end with its declaration, and none of a
declaration with no offset behind its end. -/
def ClassRecord.ofFile (file : ClassFile) : Except Failure ClassRecord :=
  let name := file.declaration.header.name
  let start := file.declaration.header.start
  let stop := file.declaration.stop
  if start ≤ stop + 1 ∧ stop < Text.maxOffset then
    match lastBytes? (stop + 1 - start) file.content with
    | some declaration => .ok ⟨name, file.path, start, stop, hashText declaration⟩
    | none => .error (.strayDeclaration name)
  else .error (.strayDeclaration name)

def FileRecord.ofOutcome (outcome : Outcome) : Except Failure FileRecord := do
  return ⟨outcome.source, outcome.backup, ← outcome.files.mapM ClassRecord.ofFile⟩

def RunRecord.ofOutcomes (generatedAt : Moment) (dryRun : Bool) (outcomes : List Outcome)
    (stats : Option Stats) : Except Failure RunRecord := do
  return ⟨generatedAt, dryRun, ← outcomes.mapM FileRecord.ofOutcome, stats⟩

def ClassRecord.json (record : ClassRecord) : Json :=
  .object [
    ("name", .text record.name),
    ("output", .text record.output.text),
    ("start", .number record.start),
    ("end", .number record.stop),
    ("sha256", .text record.sha256)]

def FileRecord.json (record : FileRecord) : Json :=
  .object [
    ("source", .text record.source.text),
    ("backup", match record.backup with
      | some path => .text path.text
      | none => .null),
    ("classes", .array (record.classes.map ClassRecord.json))]

def statsJson (stats : Stats) : Json :=
  .object [
    ("total_files", .number stats.totalFiles),
    ("split_files", .number stats.splitFiles),
    ("total_classes", .number stats.totalClasses),
    ("skipped_files", .number stats.skippedFiles),
    ("error_files", .number stats.errorFiles),
    ("error_file_paths", .array (stats.errorPaths.map fun path => .text path.text))]

def RunRecord.json (record : RunRecord) : Json :=
  .object <| [
    ("generated_at", .text record.generatedAt.text),
    ("dry_run", .bool record.dryRun),
    ("files", .array (record.files.map FileRecord.json))] ++
    match record.stats with
    | some stats => [("stats", statsJson stats)]
    | none => []

def RunRecord.text (record : RunRecord) : String :=
  record.json.pretty

def RunRecord.save (record : RunRecord) (path : Path) : Work Unit := do
  Split.saveFile path record.text
  Work.report [.reportWritten path]

end Report
end SourceSplit
