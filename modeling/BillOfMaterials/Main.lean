import BillOfMaterials.CommandLine.Program
import Std.Data.HashSet

/-!
# Running on the disk

Reads from the disk the part of the file tree that a run looks at, runs the program on it, and writes
back what the run changed.
-/
namespace BillOfMaterials.Disk

/-- What has been read: entries, newest first, the places they stand at, and the directories whose
children are among them. -/
structure Capture where
  entries : List (Location × FileEntry) := []
  seen : Std.HashSet String := ∅
  listed : Std.HashSet String := ∅

abbrev CaptureM := StateT Capture IO

def locationOf (path : String) : Location := (Path.ofString path).pieces.filter (· ≠ [])

def pathOf (loc : Location) : String := Text.ofBytes (Path.slash :: Text.joinWith [Path.slash] loc)

/-- Adds an entry unless one stands there. -/
def add (path : String) (e : FileEntry) : CaptureM Unit :=
  modify fun c =>
    if path = "/" || c.seen.contains path then c
    else { c with entries := (locationOf path, e) :: c.entries, seen := c.seen.insert path }

/-- Where a path leads once all links are followed, if it leads anywhere. -/
def real? (path : String) : IO (Option String) := do
  try return some (← IO.FS.realPath path).toString catch _ => return none

def isLink (path : String) : IO Bool := do
  try
    let found ← ((← IO.currentDir) / path).symlinkMetadata
    return found.type matches .symlink
  catch _ => return false

def child (directory name : String) : String :=
  if directory = "/" then "/" ++ name else directory ++ "/" ++ name

/-- Adds the directories that a real path goes through. -/
def addAncestors (path : String) : CaptureM Unit := do
  let loc := locationOf path
  for n in List.range loc.length do
    add (pathOf (loc.take n)) .directory

mutual

/-- Reads what stands at a path without links, and as many levels below it as `depth` says. -/
partial def captureReal (depth : Nat) (withContent : Bool) (path : String) : CaptureM Unit := do
  match (← ((← IO.currentDir) / path).metadata).type with
  | .dir =>
    add path .directory
    if depth = 0 || (← get).listed.contains path then return
    modify fun c => { c with listed := c.listed.insert path }
    for found in ← ((← IO.currentDir) / path).readDir do
      let _ ← captureChild (depth - 1) withContent path found.fileName
  | .file => add path (.file (← if withContent then IO.FS.readBinFile path else pure .empty))
  | _ => return

/-- Reads the child of a directory; a link brings what it leads to. The answer is where the child
leads. -/
partial def captureChild (depth : Nat) (withContent : Bool) (directory name : String) :
    CaptureM (Option String) := do
  let path := child directory name
  match ← real? path with
  | none =>
    if ← isLink path then add path (.link (.ofString path))
    return none
  | some real =>
    if real ≠ path then
      add path (.link (.ofString real))
      addAncestors real
    captureReal depth withContent real
    return some real

end

/-- Reads what the pieces of a path lead to from a directory. -/
def captureFrom (depth : Nat) (withContent : Bool) (directory : String) :
    List String → CaptureM Unit
  | [] => captureReal depth withContent directory
  | ".." :: rest => do
    captureFrom depth withContent (pathOf (locationOf directory).dropLast) rest
  | name :: rest => do
    match ← captureChild 0 withContent directory name with
    | some real => captureFrom depth withContent real rest
    | none => return

def capturePath (depth : Nat) (withContent : Bool) (p : Path) : CaptureM Unit := do
  let start ← if p.isAbsolute then pure "/" else (do return (← IO.FS.realPath ".").toString)
  addAncestors start
  add start .directory
  try captureFrom depth withContent start ((p.steps.filter (· ≠ [Path.dot])).map Text.ofBytes)
  catch _ => return

/-- How many levels of a directory are read at most. -/
def allLevels : Nat := 1000

def capture (home : Option Path) (a : Arguments) : CaptureM Unit := do
  let request := a.toRequest home
  for file in a.settings.toList ++ request.template.toList do
    capturePath 0 true file
  capturePath 1 true request.archives
  capturePath allLevels false request.repository
  capturePath 2 false request.output

/-- The file tree that a run with the given arguments looks at. -/
def tree (home : Option Path) (arguments : List String) : IO FileTree := do
  let workingDirectory := locationOf (← IO.FS.realPath ".").toString
  match Arguments.read arguments with
  | .error _ => return { entries := [], workingDirectory }
  | .ok a =>
    let (_, captured) ← (capture home a).run {}
    return { entries := captured.entries.reverse, workingDirectory }

def isSame : FileEntry → FileEntry → Bool
  | .directory, .directory => true
  | .file old, .file new => old.data == new.data
  | .link old, .link new => old == new
  | _, _ => false

/-- The entries of a table that a run has added to another one or changed. -/
def changes : List (Location × FileEntry) → List (Location × FileEntry) →
    List (Location × FileEntry)
  | old :: olds, new :: news =>
    if old.1 = new.1 && isSame old.2 new.2 then changes olds news else new :: changes olds news
  | _, news => news

def write : Location × FileEntry → IO Unit
  | (loc, .directory) => IO.FS.createDir (pathOf loc)
  | (loc, .file content) => IO.FS.writeBinFile (pathOf loc) content
  | (_, .link _) => return

end BillOfMaterials.Disk

open BillOfMaterials in
def main (arguments : List String) : IO UInt32 := do
  let home := (← IO.getEnv "HOME").map Path.ofString
  let before ← Disk.tree home arguments
  let result := Program.run before true home arguments
  for change in Disk.changes before.entries result.tree.entries do
    Disk.write change
  (← IO.getStdout).putStr result.output
  (← IO.getStderr).putStr result.complaints
  return result.exitCode.toUInt32
