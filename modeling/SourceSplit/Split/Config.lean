import SourceSplit.Split.TextFile
import SourceSplit.Toml.Document

/-!
# SourceSplit.Split.Config

Options from a TOML file. A key that is missing leaves its option at the default; a key that is
not an option is ignored; a value of the wrong kind makes the whole file invalid.
-/

namespace SourceSplit
namespace Split

open Toml (Members Value)

def textValue? : Value → Option String
  | .text value => some value
  | _ => none

def boolValue? : Value → Option Bool
  | .boolean value => some value
  | _ => none

def natValue? : Value → Option Nat
  | .integer value => if 0 ≤ value then some value.toNat else none
  | _ => none

/-- The value of a key as an option's value, or the default where there is no such key. -/
def field? {α : Type} (members : Members) (key : String) (default : α)
    (read : Value → Option α) : Option α :=
  match members.lookup key with
  | some value => read value
  | none => some default

def Options.ofMembers? (members : Members) : Option Options := do
  let default : Options := {}
  return {
    extension := ← field? members "extension" default.extension textValue?
    backupSuffix := ← field? members "backup_suffix" default.backupSuffix textValue?
    overwrite := ← field? members "overwrite" default.overwrite boolValue?
    dryRun := ← field? members "dry_run" default.dryRun boolValue?
    minClasses := ← field? members "min_classes" default.minClasses natValue? }

def Options.ofText? (text : String) : Option Options :=
  (Toml.members? text).bind Options.ofMembers?

def loadOptions (path : Path) : Work Options := do
  Work.report [.loadingOptions path]
  let text ← loadFile path
  match Options.ofText? text with
  | some options => pure options
  | none => Work.fail (.badOptions path)

end Split
end SourceSplit
