import SourceSplit.Cli.Run
import Std.Time.DateTime.Timestamp

/-!
# SourceSplit.Main

The command line on a real disk. The part of the disk that the arguments lead to is read into a
tree, `Cli.run` does the work on it, and what differs afterwards is written back. A link to a
directory stands as a link, a link to a file as that file.
-/

namespace SourceSplit
namespace Main

open Files (Entry Place Tree)

def diskPath (place : Place) : String :=
  "/" ++ "/".intercalate place.reverse

/-- The place that a path leads to on the disk. -/
def realPlace (path : String) : IO Place := do
  let real ← IO.FS.realPath path
  return ((Files.pathNames real.toString).filter (· ≠ "")).reverse

/-- What has been read of the disk, and the directories that have been listed for it. -/
structure Reading where
  tree : Tree
  listed : List Place

/-- Adds a directory and those that hold it, all by their real places. -/
def Reading.addDirectory (reading : Reading) (place : Place) : Reading :=
  { reading with
    tree := place.andAbove.foldl (fun tree place => tree.put place .directory) reading.tree }

def Reading.addEntry (reading : Reading) (place : Place) (entry : Entry) : Reading :=
  { reading with tree := reading.tree.put place entry }

/-- Lists a directory, and with `deep` all that a walk through it comes to. -/
partial def list (deep : Bool) (reading : Reading) (dir : Place) : IO Reading := do
  if reading.listed.contains dir then return reading
  let mut reading := { reading with listed := dir :: reading.listed }
  for entry in ← (← IO.FS.realPath (diskPath dir)).readDir do
    let place := entry.fileName :: dir
    if ← entry.path.isDir then
      let real ← realPlace (diskPath place)
      reading := reading.addDirectory real
      if (← entry.path.symlinkMetadata).type == .symlink then
        reading := reading.addEntry place (.link (diskPath real))
      if deep then reading ← list deep reading real
    else if ← entry.path.pathExists then
      reading := reading.addEntry place (.file (← IO.FS.readBinFile (diskPath place)))
  return reading

/-- Reads the directories on a path, the links among them too. -/
partial def readWay (reading : Reading) (path : Path) : IO Reading := do
  let some dir := path.parent? | return reading
  let reading ← readWay reading dir
  let onDisk := System.mkFilePath [path.text]
  if !(← onDisk.isDir) then return reading
  let real ← realPlace path.text
  let reading := reading.addDirectory real
  let some name := path.fileName? | return reading
  if (← onDisk.symlinkMetadata).type != .symlink then return reading
  let above ← if dir.text.isEmpty then pure reading.tree.home else realPlace dir.text
  return reading.addEntry (name :: above) (.link (diskPath real))

def readDirectory (deep : Bool) (reading : Reading) (dir : Path) : IO Reading := do
  if dir.text.isEmpty then list deep reading reading.tree.home
  else
    let reading ← readWay reading dir
    if ← (System.mkFilePath [dir.text]).isDir then list deep reading (← realPlace dir.text)
    else return reading

/-- What a run may look at: the whole directory that is to be split, and of every file the
directory that it is in. -/
def readFor (arguments : Cli.Arguments) : IO Tree := do
  let mut reading := ⟨.bare (← realPlace "."), []⟩
  if let some dir := arguments.dir then
    reading ← readDirectory true reading dir
  for file in [arguments.input] ++ arguments.config.toList ++ arguments.report.toList do
    if let some dir := file.parent? then
      reading ← readDirectory false reading dir
  return reading.tree

def storeEntry (before : Tree) (place : Place) (entry : Entry) : IO Unit := do
  if before.get? place ≠ some entry then
    match entry with
    | .file content => IO.FS.writeBinFile (diskPath place) content
    | .directory => IO.FS.createDirAll (diskPath place)
    | .link _ => pure ()

/-- Directories first and outer ones before inner ones, then files, then what is gone. -/
def store (before after : Tree) : IO Unit := do
  let (directories, others) := after.entries.partition fun e => e.2 = .directory
  for e in directories.mergeSort fun a b => a.1.length ≤ b.1.length do
    storeEntry before e.1 e.2
  for e in others do
    storeEntry before e.1 e.2
  for e in before.entries do
    if (after.get? e.1).isNone && e.2 ≠ .directory then
      IO.FS.removeFile (diskPath e.1)

def now : IO Report.Moment := do
  let nanos := (← Std.Time.Timestamp.now).toNanosecondsSinceUnixEpoch.val
  return ⟨nanos / 1000000000, (nanos % 1000000000).toNat⟩

end Main
end SourceSplit

def main (arguments : List String) : IO UInt32 := do
  let before ←
    match SourceSplit.Cli.Arguments.read arguments with
    | .ok arguments => SourceSplit.Main.readFor arguments
    | .error _ => pure (.bare [])
  let done := SourceSplit.Cli.run arguments (← IO.getEnv "RUST_LOG") (← SourceSplit.Main.now) before
  SourceSplit.Main.store before done.tree
  IO.print done.stdout
  IO.eprint done.stderr
  return done.exit.toUInt32
