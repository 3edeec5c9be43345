import SourceSplit.Files.Lookup

/-!
# SourceSplit.Files.Change

Reading from a file tree and changing it. An operation that fails leaves the tree as it was,
but for `makeDirectories`, which may have made some of the directories.

An operation fails for nothing but what stands in the tree and the path it is given. Left out are
permissions, a device that is full or broken, files that are opened but only partly written, and
anyone else at work on the tree.
-/

namespace SourceSplit
namespace Files

def readBytes (tree : Tree) (path : Path) : Except Fault ByteArray :=
  match status tree path with
  | .ok (.file _ content) => .ok content
  | .ok (.directory _) => .error .isDirectory
  | .ok (.free _) => .error .notFound
  | .error fault => .error fault

def readText (tree : Tree) (path : Path) : Except Fault String := do
  match String.fromUTF8? (← readBytes tree path) with
  | some text => .ok text
  | none => .error .notText

/-- Makes or replaces a file. A link at the end of the path is followed. -/
def write (tree : Tree) (path : Path) (content : ByteArray) : Except Fault Tree := do
  match ← locate tree true path with
  | .file place _ | .free place => .ok (tree.put place (.file content))
  | .directory _ => .error .isDirectory

def writeText (tree : Tree) (path : Path) (text : String) : Except Fault Tree :=
  write tree path text.toUTF8

/-- Removes a file or a link. -/
def remove (tree : Tree) (path : Path) : Except Fault Tree := do
  nulFree path
  match ← directoryOf tree path with
  | (_, .special) => .error .isDirectory
  | (dir, .plain name slash) =>
    if isTooLong name then .error .nameTooLong
    else
      match tree.get? (name :: dir) with
      | none => .error .notFound
      | some .directory => .error .isDirectory
      | some _ => if slash then .error .notDirectory else .ok (tree.erase (name :: dir))

def makeDirectory (tree : Tree) (path : Path) : Except Fault Tree := do
  nulFree path
  match ← directoryOf tree path with
  | (_, .special) => .error .alreadyExists
  | (dir, .plain name _) =>
    if isTooLong name then .error .nameTooLong
    else
      match tree.get? (name :: dir) with
      | some _ => .error .alreadyExists
      | none => .ok (tree.put (name :: dir) .directory)

def makeLink (tree : Tree) (path : Path) (target : String) : Except Fault Tree := do
  nulFree path
  match ← directoryOf tree path with
  | (_, .special) => .error .alreadyExists
  | (dir, .plain name slash) =>
    if isTooLong name then .error .nameTooLong
    else
      match tree.get? (name :: dir) with
      | some _ => .error .alreadyExists
      | none => if slash then .error .notFound else .ok (tree.put (name :: dir) (.link target))

/-- Whether what `entry` is may take the place of what stands at `place`. -/
def mayReplace (tree : Tree) (entry : Entry) (place : Place) : Except Fault Unit :=
  match tree.get? place, entry with
  | none, _ => .ok ()
  | some .directory, .directory =>
    if (tree.names place).isEmpty then .ok () else .error .directoryNotEmpty
  | some _, .directory => .error .notDirectory
  | some .directory, _ => .error .isDirectory
  | some _, _ => .ok ()

/-- Moves the entry that a path names, a link itself and not what it leads to. A file in the new
place is replaced; a directory goes neither into itself nor over one that holds it. -/
def rename (tree : Tree) (old new : Path) : Except Fault Tree := do
  nulFree old
  nulFree new
  let (oldDir, oldLast) ← directoryOf tree old
  let (newDir, newLast) ← directoryOf tree new
  match oldLast, newLast with
  | .plain oldName oldSlash, .plain newName newSlash =>
    if isTooLong oldName then .error .nameTooLong
    else
      match tree.get? (oldName :: oldDir) with
      | none => .error .notFound
      | some entry =>
        if isTooLong newName then .error .nameTooLong
        else if entry ≠ .directory ∧ (oldSlash ∨ newSlash) then .error .notDirectory
        else if (oldName :: oldDir).isSuffixOf newDir then .error .invalidArgument
        else if (newName :: newDir).isSuffixOf oldDir then .error .directoryNotEmpty
        else if oldName :: oldDir = newName :: newDir then .ok tree
        else do
          mayReplace tree entry (newName :: newDir)
          .ok (tree.move (oldName :: oldDir) (newName :: newDir))
  | _, _ => .error .busy

/-- Makes a directory and those above it that are missing. The tree is given back in any case,
since directories made before a failure stay. -/
def makeDirectories (tree : Tree) (path : Path) : Except Fault Unit × Tree :=
  if path.text.isEmpty then (.ok (), tree)
  else
    match makeDirectory tree path with
    | .ok tree => (.ok (), tree)
    | .error .notFound =>
      match _h : path.parent? with
      | none => (.error .noParent, tree)
      | some parent =>
        match makeDirectories tree parent with
        | (.error fault, tree) => (.error fault, tree)
        | (.ok (), tree) =>
          match makeDirectory tree path with
          | .ok tree => (.ok (), tree)
          | .error fault => (if isDirectory tree path then .ok () else .error fault, tree)
    | .error fault => (if isDirectory tree path then .ok () else .error fault, tree)
termination_by path.text.toList.length
decreasing_by exact Path.length_parent? _h

end Files
end SourceSplit
