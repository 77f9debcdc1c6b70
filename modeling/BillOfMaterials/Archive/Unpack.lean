import BillOfMaterials.Archive.Reader
import BillOfMaterials.FileTree.Change

/-!
# Unpacking

Entries are unpacked one after the other below a directory. The first entry that cannot be unpacked
ends the work, and what was unpacked before it stays. A name that leads out of the directory is
refused before anything is written for it.
-/
namespace BillOfMaterials

/-- Why an archive could not be unpacked. -/
inductive UnpackFault where
  /-- The file is no archive, or an entry cannot be opened. -/
  | unreadable
  /-- A file could not be read or written, or the data of an entry is damaged. -/
  | failed
  /-- An entry's name leads out of the directory. -/
  | escape (name : String)
  /-- There is not one file in the archive. -/
  | noFiles
deriving DecidableEq

def UnpackFault.message : UnpackFault → String
  | .unreadable => "invalid zip archive"
  | .failed => "extraction I/O error"
  | .escape name => "path traversal detected: " ++ name
  | .noFiles => "archive contains no files"

namespace Archive

/-- Puts an opened entry below the destination. The answer is the path of the file that was written;
a directory has none. Damaged data is written as far as it came out. -/
def Entry.place (e : Entry) (t : FileTree) (destination : Path) (bytes : ByteArray)
    (isSound : Bool) : FileTree × Except UnpackFault (Option Path) :=
  if !e.isContained then (t, .error (.escape e.name))
  else if e.isDirectory then
    match t.makeDirectories (destination.join e.path) with
    | (t', .ok ()) => (t', .ok none)
    | (t', .error _) => (t', .error .failed)
  else
    match t.writeWithDirectories (destination.join e.path) bytes with
    | (t', .ok ()) => (t', if isSound then .ok (some e.path) else .error .failed)
    | (t', .error _) => (t', .error .failed)

def Entry.unpack (e : Entry) (t : FileTree) (destination : Path) :
    FileTree × Except UnpackFault (Option Path) :=
  match e.content with
  | .locked => (t, .error .unreadable)
  | .sound bytes => e.place t destination bytes true
  | .damaged bytes => e.place t destination bytes false

/-- Unpacks entries in order and lists the paths of the files. -/
def unpackAll (destination : Path) : List Entry → FileTree → FileTree × Except UnpackFault (List Path)
  | [], t => (t, .ok [])
  | e :: rest, t =>
    match e.unpack t destination with
    | (t', .error fault) => (t', .error fault)
    | (t', .ok path) =>
      let (t'', outcome) := unpackAll destination rest t'
      (t'', outcome.map (path.toList ++ ·))

/-- Unpacks an archive; one without a file is a fault. -/
def unpack (a : Archive) (t : FileTree) (destination : Path) :
    FileTree × Except UnpackFault (List Path) :=
  match unpackAll destination a.entries t with
  | (t', .ok []) => (t', .error .noFiles)
  | result => result

def load (t : FileTree) (path : Path) : Except UnpackFault Archive :=
  match t.read path with
  | .ok content =>
    match read? content with
    | some a => .ok a
    | none => .error .unreadable
  | .error .isDirectory => .error .unreadable
  | .error _ => .error .failed

/-- Unpacks the archive that a path leads to. All of it is read before anything is written. To read an
entry when its turn comes would differ only for an archive that lies in the destination, where an entry
before may have been written over it. -/
def unpackFile (t : FileTree) (path destination : Path) :
    FileTree × Except UnpackFault (List Path) :=
  match load t path with
  | .ok a => a.unpack t destination
  | .error fault => (t, .error fault)

end Archive
end BillOfMaterials
