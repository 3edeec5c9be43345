import SourceSplit.Log.Filter

/-!
# SourceSplit.Cli.Arguments

The command line's arguments: at most one INPUT, options with a value (`--name value` or
`--name=value`) and flags. They are read from left to right, and the first thing that is wrong, or
that asks for help or the version, ends the reading.
-/

namespace SourceSplit
namespace Cli

structure Arguments where
  input : Path
  dir : Option Path
  config : Option Path
  extension : Option String
  backupSuffix : Option String
  noClobber : Bool
  dryRun : Bool
  report : Option Path
  verbose : Nat
  deriving DecidableEq, Repr

inductive UsageFault where
  | unknown (argument : String)
  | missingValue (name : String)
  | emptyValue (name : String)
  | unexpectedValue (name : String)
  | repeated (name : String)
  | inputWithDir
  deriving DecidableEq, Repr

def UsageFault.message : UsageFault → String
  | .unknown argument => "unexpected argument '" ++ argument ++ "'"
  | .missingValue name => "a value is required for '" ++ name ++ "'"
  | .emptyValue name => "a value is required for '" ++ name ++ "' but none was supplied"
  | .unexpectedValue name => "'" ++ name ++ "' takes no value"
  | .repeated name => "'" ++ name ++ "' cannot be used more than once"
  | .inputWithDir => "INPUT cannot be used with '--dir'"

/-- Why the reading of arguments ends early. -/
inductive Stop where
  | usage (fault : UsageFault)
  | help
  | version
  deriving DecidableEq, Repr

inductive Slot where
  | input
  | dir
  | config
  | extension
  | backupSuffix
  | report
  deriving DecidableEq, Repr

def Slot.name : Slot → String
  | .input => "INPUT"
  | .dir => "--dir"
  | .config => "--config"
  | .extension => "--extension"
  | .backupSuffix => "--backup-suffix"
  | .report => "--report"

/-- A path must not be empty. -/
def Slot.holdsPath : Slot → Bool
  | .input | .dir | .config | .report => true
  | .extension | .backupSuffix => false

inductive Flag where
  | noClobber
  | dryRun
  deriving DecidableEq, Repr

def Flag.name : Flag → String
  | .noClobber => "--no-clobber"
  | .dryRun => "--dry-run"

/-- What has been read so far. -/
structure Draft where
  values : List (Slot × String)
  flags : List Flag
  verbose : Nat

def Draft.set (draft : Draft) (slot : Slot) (value : String) : Except Stop Draft :=
  if (draft.values.lookup slot).isSome then .error (.usage (.repeated slot.name))
  else if slot.holdsPath && value.isEmpty then .error (.usage (.emptyValue slot.name))
  else .ok { draft with values := draft.values ++ [(slot, value)] }

def Draft.raise (draft : Draft) (flag : Flag) : Except Stop Draft :=
  if draft.flags.contains flag then .error (.usage (.repeated flag.name))
  else .ok { draft with flags := draft.flags ++ [flag] }

def Draft.louder (draft : Draft) : Draft :=
  { draft with verbose := draft.verbose + 1 }

/-- A second INPUT is one argument too many. -/
def Draft.addInput (draft : Draft) (argument : String) : Except Stop Draft :=
  if (draft.values.lookup .input).isSome then .error (.usage (.unknown argument))
  else draft.set .input argument

def Draft.addInputs (draft : Draft) (arguments : List String) : Except Stop Draft :=
  arguments.foldlM Draft.addInput draft

inductive LongName where
  | value (slot : Slot)
  | flag (flag : Flag)
  | verbose
  | help
  | version
  deriving DecidableEq, Repr

def LongName.ofText? : String → Option LongName
  | "dir" => some (.value .dir)
  | "config" => some (.value .config)
  | "extension" => some (.value .extension)
  | "backup-suffix" => some (.value .backupSuffix)
  | "report" => some (.value .report)
  | "no-clobber" => some (.flag .noClobber)
  | "dry-run" => some (.flag .dryRun)
  | "verbose" => some .verbose
  | "help" => some .help
  | "version" => some .version
  | _ => none

inductive Word where
  | long (name : String) (attached : Option String)
  | short (letters : List Char)
  /-- `--`, behind which every argument is an INPUT. -/
  | endOfOptions
  | plain
  deriving DecidableEq, Repr

/-- What an argument looks like. A single dash is a plain word. -/
def Word.ofText (argument : String) : Word :=
  match argument.toList with
  | ['-', '-'] => .endOfOptions
  | '-' :: '-' :: cs =>
    .long (String.ofList (cs.takeWhile (· ≠ '=')))
      (match cs.dropWhile (· ≠ '=') with
      | _ :: value => some (String.ofList value)
      | [] => none)
  | '-' :: c :: cs => .short (c :: cs)
  | _ => .plain

def Draft.addLetter (draft : Draft) (letter : Char) : Except Stop Draft :=
  match letter with
  | 'v' => .ok draft.louder
  | 'h' => .error .help
  | 'V' => .error .version
  | _ => .error (.usage (.unknown (String.ofList ['-', letter])))

/-- A name that stands alone: a flag, a level of verbosity, or the wish for help. -/
def Draft.addBare (draft : Draft) : LongName → Except Stop Draft
  | .value slot => .error (.usage (.missingValue slot.name))
  | .flag flag => draft.raise flag
  | .verbose => .ok draft.louder
  | .help => .error .help
  | .version => .error .version

def Draft.read (draft : Draft) : List String → Except Stop Draft
  | [] => .ok draft
  | argument :: rest =>
    match Word.ofText argument with
    | .endOfOptions => draft.addInputs rest
    | .plain => do read (← draft.addInput argument) rest
    | .short letters => do read (← letters.foldlM Draft.addLetter draft) rest
    | .long name attached =>
      match LongName.ofText? name, attached, rest with
      | none, _, _ => .error (.usage (.unknown argument))
      | some (.value slot), some value, rest => do read (← draft.set slot value) rest
      | some (.value slot), none, value :: rest =>
        if Word.ofText value = .plain then do read (← draft.set slot value) rest
        else .error (.usage (.missingValue slot.name))
      | some _, some _, _ => .error (.usage (.unexpectedValue argument))
      | some bare, none, rest => do read (← draft.addBare bare) rest

/-- The file that is split when none is named. -/
def defaultInput : Path :=
  ⟨"src/main/java/com/photochange/model/PoseModels.java"⟩

def Draft.finish (draft : Draft) : Except Stop Arguments :=
  let path? (slot : Slot) := (draft.values.lookup slot).map Path.mk
  if (path? .input).isSome && (path? .dir).isSome then .error (.usage .inputWithDir)
  else .ok {
    input := (path? .input).getD defaultInput
    dir := path? .dir
    config := path? .config
    extension := draft.values.lookup .extension
    backupSuffix := draft.values.lookup .backupSuffix
    noClobber := draft.flags.contains .noClobber
    dryRun := draft.flags.contains .dryRun
    report := path? .report
    verbose := draft.verbose }

def Arguments.read (arguments : List String) : Except Stop Arguments := do
  (← (Draft.mk [] [] 0).read arguments).finish

end Cli
end SourceSplit
