import SourceSplit.Files.Tree
import SourceSplit.Path

/-!
# SourceSplit.Files.Lookup

From a path to a place in a file tree. The path is followed name by name, from the root if it is
absolute and from the working directory if not: `..` goes up in the tree, not in the text, and a
symbolic link is replaced by its target, at most forty times. Why the file system refuses an
operation is a `Fault`.
-/

namespace SourceSplit
namespace Files

/-- Why an operation is refused, with the operating system's number where it has one. -/
inductive Fault where
  | notFound
  | busy
  | alreadyExists
  | notDirectory
  | isDirectory
  | invalidArgument
  | nameTooLong
  | directoryNotEmpty
  | tooManyLinks
  | nulInName
  | notText
  | noParent
  deriving DecidableEq, Repr

def Fault.message : Fault → String
  | .notFound => "No such file or directory (os error 2)"
  | .busy => "Device or resource busy (os error 16)"
  | .alreadyExists => "File exists (os error 17)"
  | .notDirectory => "Not a directory (os error 20)"
  | .isDirectory => "Is a directory (os error 21)"
  | .invalidArgument => "Invalid argument (os error 22)"
  | .nameTooLong => "File name too long (os error 36)"
  | .directoryNotEmpty => "Directory not empty (os error 39)"
  | .tooManyLinks => "Too many levels of symbolic links (os error 40)"
  | .nulInName => "file name contained an unexpected NUL byte"
  | .notText => "stream did not contain valid UTF-8"
  | .noParent => "failed to create whole tree"

/-- What stands at the end of a path: a file, a directory, or nothing in an existing directory. -/
inductive Spot where
  | file (place : Place) (content : ByteArray)
  | directory (place : Place)
  | free (place : Place)

def maxName : Nat := 255

def maxPath : Nat := 4096

def maxLinks : Nat := 40

def isTooLong (name : String) : Bool :=
  maxName < Text.byteLength name.toList

/-- The names of a path, with the empty ones that stand for a slash at the end or twice in a
row. -/
def pathNames (text : String) : List String :=
  (Path.segments ⟨text⟩).map String.ofList

def nulFree (path : Path) : Except Fault Unit :=
  if path.text.toList.contains '\x00' then .error .nulInName else .ok ()

/-- The empty path leads nowhere, and a path has a greatest length. -/
def lengthFits (path : Path) : Except Fault Unit :=
  if path.text.isEmpty then .error .notFound
  else if maxPath ≤ Text.byteLength path.text.toList then .error .nameTooLong
  else .ok ()

/-- Where the names of a path start to be followed, when relative ones start at `dir`. -/
def startFrom (dir : Place) (text : String) : Place :=
  if Path.isAbsolute ⟨text⟩ then [] else dir

/-- Follows names from a place on. With `create` the last name is about to be made a file, so a
slash behind it is refused at once. `links` bounds the links still to be followed. -/
def follow (tree : Tree) (create : Bool) (links : Nat) (place : Place) (names : List String) :
    Except Fault Spot :=
  match names with
  | [] =>
    match tree.get? place with
    | some (.file content) => .ok (.file place content)
    | some .directory => .ok (.directory place)
    | some (.link _) => .error .tooManyLinks
    | none => .error .notFound
  | name :: rest =>
    match tree.get? place with
    | some .directory =>
      if name = "" ∨ name = "." then follow tree create links place rest
      else if name = ".." then follow tree create links place.tail rest
      else if create ∧ rest ≠ [] ∧ rest.all (· = "") then .error .isDirectory
      else if isTooLong name then .error .nameTooLong
      else
        match tree.get? (name :: place) with
        | none => if rest = [] then .ok (.free (name :: place)) else .error .notFound
        | some (.link target) =>
          match links with
          | 0 => .error .tooManyLinks
          | links + 1 =>
            follow tree create links (startFrom place target) (pathNames target ++ rest)
        | some _ => follow tree create links (name :: place) rest
    | some _ => .error .notDirectory
    | none => .error .notFound
termination_by (links, names.length)

def locate (tree : Tree) (create : Bool) (path : Path) : Except Fault Spot := do
  nulFree path
  lengthFits path
  follow tree create maxLinks (startFrom tree.home path.text) (pathNames path.text)

/-- What a path leads to, links followed. -/
def status (tree : Tree) (path : Path) : Except Fault Spot :=
  match locate tree false path with
  | .ok (.free _) => .error .notFound
  | found => found

def isFile (tree : Tree) (path : Path) : Bool :=
  match status tree path with
  | .ok (.file _ _) => true
  | _ => false

def isDirectory (tree : Tree) (path : Path) : Bool :=
  match status tree path with
  | .ok (.directory _) => true
  | _ => false

def isPresent (tree : Tree) (path : Path) : Bool :=
  match status tree path with
  | .ok _ => true
  | .error _ => false

/-- The last name of a path, for operations on a directory's own entries. `special` is the root,
`.` or `..`. -/
inductive LastName where
  | special
  | plain (name : String) (slash : Bool)
  deriving DecidableEq, Repr

def splitLast (names : List String) : List String × LastName :=
  match names.reverse.dropWhile (· = "") with
  | [] => ([], .special)
  | name :: before =>
    if name = "." ∨ name = ".." then (before.reverse, .special)
    else (before.reverse, .plain name (names.getLast? = some ""))

/-- The directory that holds the entry which a path names, and the entry's name. -/
def directoryOf (tree : Tree) (path : Path) : Except Fault (Place × LastName) := do
  lengthFits path
  let (before, last) := splitLast (pathNames path.text)
  match follow tree false maxLinks (startFrom tree.home path.text) before with
  | .ok (.directory place) => .ok (place, last)
  | .ok (.file _ _) => .error .notDirectory
  | .ok (.free _) => .error .notFound
  | .error fault => .error fault

end Files
end SourceSplit
