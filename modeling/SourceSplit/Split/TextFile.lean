import SourceSplit.Work

/-!
# SourceSplit.Split.TextFile

Reading and saving whole text files around a split: options, reports. Saving makes the
directories that are missing on the way to the file.
-/

namespace SourceSplit
namespace Split

def ensureDirectory (directory : Path) : Work Unit :=
  fun tree =>
    if Files.isPresent tree directory then ⟨.ok (), tree, []⟩
    else
      match Files.makeDirectories tree directory with
      | (.ok (), after) => ⟨.ok (), after, [.creatingDirectory directory]⟩
      | (.error fault, after) =>
        ⟨.error (.directoryNotMade directory fault), after, [.creatingDirectory directory]⟩

def loadFile (path : Path) : Work String :=
  Work.look fun tree =>
    match Files.readText tree path with
    | .ok text => .ok text
    | .error fault => .error (.unreadable path fault)

def ensureParent (path : Path) : Work Unit :=
  match path.parent? with
  | some parent => if parent.text.isEmpty then pure () else ensureDirectory parent
  | none => pure ()

def replaceFile (path : Path) (text : String) : Work Unit :=
  fun tree =>
    match Files.writeText tree path text with
    | .ok after => ⟨.ok (), after, []⟩
    | .error fault => ⟨.error (.unwritable path fault), tree, []⟩

def saveFile (path : Path) (text : String) : Work Unit := do
  ensureParent path
  replaceFile path text

end Split
end SourceSplit
