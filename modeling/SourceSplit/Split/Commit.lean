import SourceSplit.Split.Plan
import SourceSplit.Work

/-!
# SourceSplit.Split.Commit

Writing the planned class files, and setting the source aside. When a file cannot be written,
those written before it are removed again.
-/

namespace SourceSplit
namespace Split

open Log (Event)

/-- Removes a file that was written. A failure to do so is reported and otherwise ignored. -/
def unwrite (file : ClassFile) : Work Unit :=
  fun tree =>
    match Files.remove tree file.path with
    | .ok after => ⟨.ok (), after, [.removed file.path]⟩
    | .error fault => ⟨.ok (), tree, [.removeFailed file.path fault]⟩

def unwriteAll : List ClassFile → Work Unit
  | [] => pure ()
  | file :: files => do
    unwrite file
    unwriteAll files

/-- Writes a file, or says why that is not possible. -/
def writeFile (file : ClassFile) : Work (Option Files.Fault) :=
  fun tree =>
    match Files.writeText tree file.path file.content with
    | .ok after => ⟨.ok none, after, [.created file.path]⟩
    | .error fault => ⟨.ok (some fault), tree, []⟩

def writeFrom (written : List ClassFile) : List ClassFile → Work Unit
  | [] => pure ()
  | file :: files => do
    match ← writeFile file with
    | none => writeFrom (written ++ [file]) files
    | some fault =>
      unwriteAll written
      Work.fail (.io file.path fault)

def writeAll (files : List ClassFile) : Work Unit :=
  writeFrom [] files

/-- Renames the source. The path of the backup is that of the source with the suffix appended. -/
def setAside (o : Options) (source : Path) : Work Path :=
  let backup := source.withSuffix o.backupSuffix
  fun tree =>
    match Files.rename tree source backup with
    | .ok after => ⟨.ok backup, after, [.renaming source backup, .backedUp source backup]⟩
    | .error fault => ⟨.error (.io source fault), tree, [.renaming source backup]⟩

end Split
end SourceSplit
