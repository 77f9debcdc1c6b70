import BillOfMaterials.Path

/-!
# Archives

An archive is a sequence of named entries. What an entry holds may be out of reach, or may turn out
to be damaged while it is read. No two entries of an archive have the same name: of several, the
first one's place and the last one's content count.
-/
namespace BillOfMaterials

namespace Archive

/-- What reading an entry gives. -/
inductive Content where
  /-- The entry cannot be opened: it is encrypted, or packed in a way that is not known. -/
  | locked
  /-- The bytes come out, and then reading fails. -/
  | damaged (bytes : ByteArray)
  | sound (bytes : ByteArray)

structure Entry where
  name : String
  content : Content

namespace Entry

/-- An entry whose name ends in a slash of either kind is a directory. -/
def isDirectory (e : Entry) : Bool :=
  e.name.toList.getLast? == some '/' || e.name.toList.getLast? == some '\\'

def path (e : Entry) : Path := .ofString e.name

/-- Whether components lead to a place at or below where they start and never leave it on the way.
The number is how far below the start they have led so far. -/
def staysBelow : Nat → List Path.Component → Bool
  | _, [] => true
  | _, .root :: _ => false
  | 0, .up :: _ => false
  | depth + 1, .up :: rest => staysBelow depth rest
  | depth, .here :: rest => staysBelow depth rest
  | depth, .name _ :: rest => staysBelow (depth + 1) rest

/-- Whether the name of the entry may be used as a path below any directory. -/
def isContained (e : Entry) : Bool :=
  !e.path.spelling.contains 0 && staysBelow 0 e.path.components

end Entry

/-- Adds an entry at the end, or puts its content for that of the entry with the same name. -/
def add (e : Entry) : List Entry → List Entry
  | [] => [e]
  | first :: rest => if first.name = e.name then e :: rest else first :: add e rest

end Archive

structure Archive where
  entries : List Archive.Entry

/-- The archive that holds entries in the order in which they were stored. -/
def Archive.ofStored (stored : List Archive.Entry) : Archive :=
  ⟨stored.foldl (fun entries e => Archive.add e entries) []⟩

end BillOfMaterials
