import SourceSplit.Cli.Arguments
import SourceSplit.Report.Basic
import SourceSplit.Split.Config

/-!
# SourceSplit.Cli.Run

A run of the program: from arguments, an environment and a file tree to an exit status, what is
printed, the log, and the tree afterwards.
-/

namespace SourceSplit
namespace Cli

open Split (Options Outcome Stats)
open Report (Moment RunRecord)
open Log (Event Filter)

def Arguments.adjust (arguments : Arguments) (o : Options) : Options where
  extension := arguments.extension.getD o.extension
  backupSuffix := arguments.backupSuffix.getD o.backupSuffix
  overwrite := o.overwrite && !arguments.noClobber
  dryRun := o.dryRun || arguments.dryRun
  minClasses := o.minClasses

/-- The options of the configuration file, if there is one, as the arguments adjust them. -/
def Arguments.options (arguments : Arguments) : Work Options := do
  match arguments.config with
  | some path => return arguments.adjust (← Split.loadOptions path)
  | none => return arguments.adjust {}

/-- What a split came to, as far as it is printed and reported. -/
structure Summary where
  lines : List String
  outcomes : List Outcome
  stats : Option Stats
  succeeded : Bool

def outcomeLines (dryRun : Bool) (outcome : Outcome) : List String :=
  (outcome.files.map fun file =>
    (if dryRun then "Would create " else "Created ") ++ file.path.text) ++
  match outcome.backup with
  | some backup => ["Original file backed up as " ++ backup.text]
  | none => []

def summarizeFile (o : Options) (input : Path) : Work Summary := do
  match ← Work.attempt (Split.splitFile o input) with
  | .ok outcome => return ⟨outcomeLines o.dryRun outcome, [outcome], none, true⟩
  | .error failure => return ⟨["Error: " ++ failure.message], [], none, false⟩

def summarizeDirectory (o : Options) (dir : Path) : Work Summary := do
  let batch ← Split.splitDirectory o dir
  let stats := batch.stats
  let lines :=
    batch.outcomes.flatMap (outcomeLines o.dryRun) ++
    (stats.errorPaths.map fun path => "Error: failed to split " ++ path.text) ++
    ["Split " ++ toString stats.splitFiles ++ " of " ++ toString stats.totalFiles ++
      " files into " ++ toString stats.totalClasses ++ " classes"]
  return ⟨lines, batch.outcomes, some stats, stats.errorFiles = 0⟩

def splitAsAsked (arguments : Arguments) : Work (Options × Summary) := do
  let o ← arguments.options
  Work.report [.usingOptions o]
  let summary ←
    match arguments.dir with
    | some dir => summarizeDirectory o dir
    | none => summarizeFile o arguments.input
  return (o, summary)

def saveReport (arguments : Arguments) (now : Moment) (o : Options) (summary : Summary) :
    Work Unit :=
  match arguments.report with
  | none => pure ()
  | some path => do
    let record ← Work.look fun _ =>
      RunRecord.ofOutcomes now o.dryRun summary.outcomes summary.stats
    record.save path

/-- All that a run does once its arguments are read: the lines it prints, and whether it
succeeded. What was split stays split when the report cannot be saved. -/
def work (arguments : Arguments) (now : Moment) : Work (List String × Bool) := do
  match ← Work.attempt (splitAsAsked arguments) with
  | .error failure => return (["Error: " ++ failure.message], false)
  | .ok (o, summary) =>
    match ← Work.attempt (saveReport arguments now o summary) with
    | .error failure => return (summary.lines ++ ["Error: " ++ failure.message], false)
    | .ok () => return (summary.lines, summary.succeeded)

def levelOfVerbosity : Nat → Log.Level
  | 0 => .warn
  | 1 => .info
  | 2 => .debug
  | _ => .trace

/-- The filter that the environment asks for, or the one of the verbosity. -/
def logFilter (verbose : Nat) (fromEnvironment : Option String) :
    Filter × List Log.FilterFault :=
  match fromEnvironment with
  | some text => Filter.ofText text
  | none => (Filter.all (levelOfVerbosity verbose), [])

def logText (verbose : Nat) (fromEnvironment : Option String) (events : List Event) : String :=
  let (filter, faults) := logFilter verbose fromEnvironment
  let warnings := faults.map fun fault => "warning: " ++ fault.message ++ ", ignoring it\n"
  String.join (warnings ++ ((events.map Event.record).filter filter.shows).map Log.Record.text)

structure Finish where
  exit : Nat
  stdout : String
  stderr : String
  tree : Files.Tree

def textOfLines (lines : List String) : String :=
  String.join (lines.map (· ++ "\n"))

def versionLine : String := "class_splitter 0.1.0"

def helpLines : List String := [
  "Split a source file holding several public classes into one file per class",
  "",
  "Usage: class_splitter [OPTIONS] [INPUT]",
  "",
  "Arguments:",
  "  [INPUT]  Source file to split [default: " ++ defaultInput.text ++ "]",
  "",
  "Options:",
  "      --dir <DIR>                      Split every eligible file under this directory" ++
    " instead of INPUT",
  "      --config <CONFIG>                TOML file with split options",
  "      --extension <EXTENSION>          Extension of the emitted class files",
  "      --backup-suffix <BACKUP_SUFFIX>  Suffix appended to the original file when it is backed up",
  "      --no-clobber                     Refuse to replace class files that already exist",
  "      --dry-run                        Show what would be written without touching any file",
  "      --report <REPORT>                Write a JSON report of the run to this file",
  "  -v, --verbose...                     Increase log verbosity (-v, -vv, -vvv)",
  "  -h, --help                           Print help",
  "  -V, --version                        Print version"]

/-- Exit status 2 says that the arguments are wrong, 1 that a split or the report failed. -/
def run (arguments : List String) (fromEnvironment : Option String) (now : Moment)
    (tree : Files.Tree) : Finish :=
  match Arguments.read arguments with
  | .error .help => ⟨0, textOfLines helpLines, "", tree⟩
  | .error .version => ⟨0, textOfLines [versionLine], "", tree⟩
  | .error (.usage fault) => ⟨2, "", textOfLines ["error: " ++ fault.message], tree⟩
  | .ok arguments =>
    let ran := (work arguments now).run tree
    let stderr := logText arguments.verbose fromEnvironment ran.events
    match ran.result with
    | .ok (lines, succeeded) => ⟨if succeeded then 0 else 1, textOfLines lines, stderr, ran.tree⟩
    | .error failure => ⟨1, textOfLines ["Error: " ++ failure.message], stderr, ran.tree⟩

end Cli
end SourceSplit
