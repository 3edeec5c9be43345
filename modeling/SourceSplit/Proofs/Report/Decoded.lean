import SourceSplit.Proofs.Report.Printed
import SourceSplit.Report.Basic

/-!
# SourceSplit.Proofs.Report.Decoded

The text of a record is a JSON text that tells all that is in the record, the moment by its text
(`RunRecord.text_decodes`).
-/

namespace SourceSplit
namespace Report

open Split (Stats)

/-! ## Reading fields -/

namespace Json

/-- The value of the one member with the name. -/
def field? (name : String) : Json → Option Json
  | .object members =>
    match members.filter (·.1 = name) with
    | [member] => some member.2
    | _ => none
  | _ => none

def bool? : Json → Option Bool
  | .bool value => some value
  | _ => none

def number? : Json → Option Nat
  | .number value => some value
  | _ => none

def text? : Json → Option String
  | .text value => some value
  | _ => none

def path? (json : Json) : Option Path :=
  json.text?.map Path.mk

def list? {α : Type} (read? : Json → Option α) : Json → Option (List α)
  | .array elements => elements.mapM read?
  | _ => none

/-- Either `null` or what `read?` reads. -/
def nullable? {α : Type} (read? : Json → Option α) : Json → Option (Option α)
  | .null => some none
  | json => (read? json).map some

end Json

def ClassRecord.ofJson? (json : Json) : Option ClassRecord := do
  let name ← (← json.field? "name").text?
  let output ← (← json.field? "output").path?
  let start ← (← json.field? "start").number?
  let stop ← (← json.field? "end").number?
  let sha256 ← (← json.field? "sha256").text?
  return ⟨name, output, start, stop, sha256⟩

def FileRecord.ofJson? (json : Json) : Option FileRecord := do
  let source ← (← json.field? "source").path?
  let backup ← (← json.field? "backup").nullable? Json.path?
  let classes ← (← json.field? "classes").list? ClassRecord.ofJson?
  return ⟨source, backup, classes⟩

def statsOfJson? (json : Json) : Option Stats := do
  let totalFiles ← (← json.field? "total_files").number?
  let splitFiles ← (← json.field? "split_files").number?
  let totalClasses ← (← json.field? "total_classes").number?
  let skippedFiles ← (← json.field? "skipped_files").number?
  let errorFiles ← (← json.field? "error_files").number?
  let errorPaths ← (← json.field? "error_file_paths").list? Json.path?
  return ⟨totalFiles, splitFiles, totalClasses, skippedFiles, errorFiles, errorPaths⟩

/-- A record with its moment as text. -/
structure Contents where
  generatedAt : String
  dryRun : Bool
  files : List FileRecord
  stats : Option Stats
  deriving DecidableEq, Repr

def RunRecord.contents (record : RunRecord) : Contents :=
  ⟨record.generatedAt.text, record.dryRun, record.files, record.stats⟩

/-- There are no statistics where no member has their name. -/
def Contents.ofJson? (json : Json) : Option Contents := do
  let generatedAt ← (← json.field? "generated_at").text?
  let dryRun ← (← json.field? "dry_run").bool?
  let files ← (← json.field? "files").list? FileRecord.ofJson?
  let stats ← match json.field? "stats" with
    | some stats => (statsOfJson? stats).map some
    | none => some none
  return ⟨generatedAt, dryRun, files, stats⟩

/-! ## Records are read back -/

theorem Json.list?_array {α : Type} {read? : Json → Option α} {write : α → Json}
    (h : ∀ a, read? (write a) = some a) (as : List α) :
    (Json.array (as.map write)).list? read? = some as := by
  induction as with
  | nil => rfl
  | cons a as ih =>
    rw [Json.list?] at ih ⊢
    rw [List.map_cons, List.mapM_cons, h, ih]
    rfl

theorem ClassRecord.ofJson?_json (record : ClassRecord) :
    ClassRecord.ofJson? record.json = some record := by
  rfl

theorem FileRecord.ofJson?_json (record : FileRecord) :
    FileRecord.ofJson? record.json = some record := by
  have hclasses := Json.list?_array ClassRecord.ofJson?_json record.classes
  obtain ⟨source, backup, classes⟩ := record
  cases backup with
  | none | some path =>
    simp [FileRecord.ofJson?, FileRecord.json, Json.field?, Json.path?, Json.text?, Json.nullable?,
      hclasses]

theorem statsOfJson?_statsJson (stats : Stats) : statsOfJson? (statsJson stats) = some stats := by
  have hpath : ∀ path : Path, (Json.text path.text).path? = some path := fun _ => rfl
  have hpaths := Json.list?_array hpath stats.errorPaths
  simp [statsOfJson?, statsJson, Json.field?, Json.number?, hpaths]

theorem Contents.ofJson?_json (record : RunRecord) :
    Contents.ofJson? record.json = some record.contents := by
  have hfiles := Json.list?_array FileRecord.ofJson?_json record.files
  obtain ⟨moment, dryRun, files, stats⟩ := record
  cases stats with
  | none =>
    simp [Contents.ofJson?, RunRecord.json, RunRecord.contents, Json.field?, Json.text?, Json.bool?,
      hfiles]
  | some stats =>
    simp [Contents.ofJson?, RunRecord.json, RunRecord.contents, Json.field?, Json.text?, Json.bool?,
      hfiles, statsOfJson?_statsJson]

theorem RunRecord.json_eq_of_contents {record other : RunRecord}
    (h : other.contents = record.contents) : other.json = record.json := by
  rw [contents, contents, Contents.mk.injEq] at h
  obtain ⟨hmoment, hdry, hfiles, hstats⟩ := h
  rw [json, json, hmoment, hdry, hfiles, hstats]

/-- The text of a record is one JSON value from which everything in the record is read, so
different records have different texts. -/
theorem RunRecord.text_decodes (record : RunRecord) :
    (∃ json, (∀ other, Grammar.Spells record.text other ↔ other = json) ∧
      Contents.ofJson? json = some record.contents) ∧
    ∀ other : RunRecord, other.text = record.text ↔ other.contents = record.contents := by
  refine ⟨⟨record.json, fun _ => Grammar.spells_pretty_iff, Contents.ofJson?_json record⟩, ?_⟩
  intro other
  constructor
  · intro htext
    have hspells : Grammar.Spells record.text other.json := by
      rw [← htext]
      exact Grammar.spells_pretty_iff.2 rfl
    have hjson : other.json = record.json := Grammar.spells_pretty_iff.1 hspells
    have hread := Contents.ofJson?_json other
    rw [hjson, Contents.ofJson?_json] at hread
    exact (Option.some.inj hread).symm
  · intro hcontents
    rw [text, text, json_eq_of_contents hcontents]

end Report
end SourceSplit
