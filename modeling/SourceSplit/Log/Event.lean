import SourceSplit.Files.Walk
import SourceSplit.Source.Document
import SourceSplit.Split.Basic
import SourceSplit.Text.Control

/-!
# SourceSplit.Log.Event

What a run reports while it works, and the log record of each event: how loud it is, which part
of the program speaks, and what it says. Names may hold any character, so a record is written
without those that control a terminal.
-/

namespace SourceSplit
namespace Log

/-- From quiet to loud. -/
inductive Level where
  | off
  | error
  | warn
  | info
  | debug
  | trace
  deriving DecidableEq, Repr

def Level.rank : Level → Nat
  | .off => 0
  | .error => 1
  | .warn => 2
  | .info => 3
  | .debug => 4
  | .trace => 5

/-- The level's name, five characters wide. -/
def Level.label : Level → String
  | .off => "OFF  "
  | .error => "ERROR"
  | .warn => "WARN "
  | .info => "INFO "
  | .debug => "DEBUG"
  | .trace => "TRACE"

structure Record where
  level : Level
  target : String
  message : String
  deriving DecidableEq, Repr

/-- The later lines of a text set in by four blanks. -/
def indented (text : String) : String :=
  String.ofList (text.toList.flatMap fun c => if c = '\n' then "\n    ".toList else [c])

def Record.line (record : Record) : String :=
  "[" ++ record.level.label ++ " " ++ record.target ++ "] " ++ indented record.message

/-- The record as a terminal is sent it, with the end of its line. -/
def Record.text (record : Record) : String :=
  String.ofList (Text.withoutControls (record.line ++ "\n").toList)

inductive Event where
  | usingOptions (options : Split.Options)
  | loadingOptions (path : Path)
  | creatingDirectory (path : Path)
  | splitting (path : Path)
  | documentRead (path : Path) (package : String) (imports : Nat)
  | headerFound (header : Source.Header)
  | headersCounted (count : Nat)
  | braceMatched (start stop : Nat)
  | declarationFound (declaration : Source.Declaration)
  | dryRun (count : Nat) (path : Path)
  | created (path : Path)
  | removed (path : Path)
  | removeFailed (path : Path) (fault : Files.Fault)
  | renaming (path backup : Path)
  | backedUp (path backup : Path)
  | scanning (directory : Path)
  | collecting (directory : Path)
  | entrySkipped (directory : Path) (fault : Files.WalkFault)
  | fileFound (path : Path)
  | collected (count : Nat)
  | readFailed (path : Path) (fault : Files.Fault)
  | fileSkipped (path : Path) (count : Nat)
  | splitFailed (path : Path) (failure : Split.Failure)
  | batchDone (split total classes : Nat)
  | reportWritten (path : Path)
  deriving DecidableEq, Repr

def Event.level : Event → Level
  | .usingOptions _ | .loadingOptions _ | .creatingDirectory _ | .documentRead _ _ _
  | .headersCounted _ | .declarationFound _ | .removed _ | .renaming _ _ | .collecting _
  | .collected _ | .fileSkipped _ _ => .debug
  | .headerFound _ | .braceMatched _ _ | .fileFound _ => .trace
  | .removeFailed _ _ | .entrySkipped _ _ | .readFailed _ _ | .splitFailed _ _ => .warn
  | .splitting _ | .dryRun _ _ | .created _ | .backedUp _ _ | .scanning _ | .batchDone _ _ _
  | .reportWritten _ => .info

/-- The part of the program that speaks. A log filter chooses parts by the start of this name. -/
def Event.target : Event → String
  | .usingOptions _ => "class_splitter"
  | .loadingOptions _ => "class_splitter::config"
  | .creatingDirectory _ => "class_splitter::utils::file_utils"
  | .documentRead _ _ _ | .headerFound _ | .headersCounted _ =>
    "class_splitter::split::scanner::discovery"
  | .braceMatched _ _ => "class_splitter::split::scanner::boundary"
  | .collecting _ | .entrySkipped _ _ | .fileFound _ | .collected _ =>
    "class_splitter::split::scanner::file_collector"
  | .created _ | .removed _ | .removeFailed _ _ | .renaming _ _ | .backedUp _ _ =>
    "class_splitter::split::emitter"
  | .reportWritten _ => "class_splitter::split::report"
  | .splitting _ | .declarationFound _ | .dryRun _ _ | .scanning _ | .readFailed _ _
  | .fileSkipped _ _ | .splitFailed _ _ | .batchDone _ _ _ => "class_splitter::split::splitter"

def Event.message : Event → String
  | .usingOptions options => "Using options: " ++ options.line
  | .loadingOptions path => "Loading options from " ++ path.text
  | .creatingDirectory path => "Creating directory: " ++ path.text
  | .splitting path => "Splitting " ++ path.text
  | .documentRead path package imports =>
    "Document " ++ path.text ++ " has package " ++ package ++ s!" and {imports} imports"
  | .headerFound header =>
    "Found class " ++ header.name ++ " at " ++ toString header.start ++ ".." ++
      toString header.brace
  | .headersCounted count => s!"Found {count} class candidates"
  | .braceMatched start stop => s!"Matched brace opened at {start} with close at {stop}"
  | .declarationFound declaration =>
    "Class " ++ declaration.header.name ++ " spans " ++ toString declaration.header.start ++
      "..=" ++ toString declaration.stop
  | .dryRun count path => s!"Dry run: {count} classes would be written from " ++ path.text
  | .created path => "Created " ++ path.text
  | .removed path => "Removed " ++ path.text
  | .removeFailed path fault => "Failed to remove " ++ path.text ++ ": " ++ fault.message
  | .renaming path backup => "Renaming " ++ path.text ++ " to " ++ backup.text
  | .backedUp path backup => "Backed up " ++ path.text ++ " as " ++ backup.text
  | .scanning directory => "Scanning directory: " ++ directory.text
  | .collecting directory => "Collecting files from directory: " ++ directory.text
  | .entrySkipped directory fault =>
    "Skipping unreadable entry under " ++ directory.text ++ ": " ++ fault.message
  | .fileFound path => "Found file: " ++ path.text
  | .collected count => s!"Collected {count} files for processing"
  | .readFailed path fault => "Failed to read " ++ path.text ++ ": " ++ fault.message
  | .fileSkipped path count => "Skipping " ++ path.text ++ s!" ({count} classes)"
  | .splitFailed path failure => "Failed to split " ++ path.text ++ ": " ++ failure.message
  | .batchDone split total classes =>
    s!"Split {split} of {total} files into {classes} classes"
  | .reportWritten path => "Wrote split report to " ++ path.text

def Event.record (event : Event) : Record :=
  ⟨event.level, event.target, event.message⟩

end Log
end SourceSplit
