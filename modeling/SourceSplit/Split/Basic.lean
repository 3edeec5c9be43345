import SourceSplit.Brace
import SourceSplit.Files.Lookup
import SourceSplit.Text.Quoted

/-!
# SourceSplit.Split.Basic

What a user may choose about a split, and why a split, or the reading and saving of files around
it, comes to nothing.
-/

namespace SourceSplit
namespace Split

structure Options where
  /-- Extension of the class files; a batch collects files with this extension. -/
  extension : String := "java"
  /-- Appended to the path of a source that is set aside. -/
  backupSuffix : String := ".bak"
  /-- Replace class files that exist already. -/
  overwrite : Bool := true
  /-- Leave the file tree alone. -/
  dryRun : Bool := false
  /-- A batch leaves files with fewer classes alone. -/
  minClasses : Nat := 2
  deriving DecidableEq, Repr, Inhabited

/-- All options on one line, as the log shows them. -/
def Options.line (o : Options) : String :=
  "SplitOptions \x7b extension: " ++ Text.quoted o.extension ++
    ", backup_suffix: " ++ Text.quoted o.backupSuffix ++
    ", overwrite: " ++ toString o.overwrite ++
    ", dry_run: " ++ toString o.dryRun ++
    ", min_classes: " ++ toString o.minClasses ++ " \x7d"

inductive Failure where
  | inputMissing (path : Path)
  | packageMissing (path : Path)
  | noClasses (path : Path)
  | malformed (className : String) (cause : Brace.Fault)
  | outputExists (path : Path)
  | io (path : Path) (fault : Files.Fault)
  /-- A declaration was given that does not lie in its text. -/
  | strayDeclaration (className : String)
  | unreadable (path : Path) (fault : Files.Fault)
  | unwritable (path : Path) (fault : Files.Fault)
  | directoryNotMade (path : Path) (fault : Files.Fault)
  | badOptions (path : Path)
  deriving DecidableEq, Repr

def Failure.message : Failure → String
  | .inputMissing path => "input " ++ path.text ++ " does not exist"
  | .packageMissing path => "no package declaration found in " ++ path.text
  | .noClasses path => "no public classes found in " ++ path.text
  | .malformed className cause =>
    "class " ++ className ++ " could not be extracted: " ++ cause.message
  | .outputExists path => "output file " ++ path.text ++ " already exists"
  | .io path fault => "I/O error on " ++ path.text ++ ": " ++ fault.message
  | .strayDeclaration className => "class " ++ className ++ " does not lie in its document"
  | .unreadable path fault => "Failed to read file " ++ path.text ++ ": " ++ fault.message
  | .unwritable path fault => "Failed to write file " ++ path.text ++ ": " ++ fault.message
  | .directoryNotMade path fault =>
    "Failed to create directory " ++ path.text ++ ": " ++ fault.message
  | .badOptions path => "Failed to parse config file " ++ path.text

end Split
end SourceSplit
