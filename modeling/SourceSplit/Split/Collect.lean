import SourceSplit.Work

/-!
# SourceSplit.Split.Collect

The files below a directory that have one of the given extensions. Case does not matter for ASCII
letters in an extension. What cannot be read is reported and passed over.
-/

namespace SourceSplit
namespace Split

open Log (Event)

def sameIgnoringCase (s t : String) : Bool :=
  s.toList.map Char.toLower = t.toList.map Char.toLower

def accepts (extensions : List String) (path : Path) : Bool :=
  match path.extension? with
  | some extension => extensions.any (sameIgnoringCase extension)
  | none => false

def accepted? (extensions : List String) : Files.Visit → Option Path
  | .file path => if accepts extensions path then some path else none
  | .problem _ => none

def visitEvent? (extensions : List String) (directory : Path) : Files.Visit → Option Event
  | .file path => if accepts extensions path then some (.fileFound path) else none
  | .problem fault => some (.entrySkipped directory fault)

def filesBelow (tree : Files.Tree) (extensions : List String) (directory : Path) : List Path :=
  (Files.walk tree directory).filterMap (accepted? extensions)

def collect (extensions : List String) (directory : Path) : Work (List Path) := do
  let visits ← Work.look fun tree => .ok (Files.walk tree directory)
  let files := visits.filterMap (accepted? extensions)
  Work.report <| [.collecting directory] ++ visits.filterMap (visitEvent? extensions directory) ++
    [.collected files.length]
  pure files

end Split
end SourceSplit
