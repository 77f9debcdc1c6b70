import BillOfMaterials.Path

/-!
# File trees

A file tree is a finite table from locations to directories, files and symbolic links, and the
directory that relative paths start from. It is looked at through `FileTree.at?` alone; a change puts
one entry at one location and leaves every other location as it was. The order of the table is the
order in which directories list their children, and nothing else depends on it.
-/
namespace BillOfMaterials

/-- Where an entry lies: the names that lead to it from the root of the tree. -/
abbrev Location := List Bytes

inductive FileEntry where
  | directory
  | file (content : ByteArray)
  /-- A symbolic link; a relative target starts from the directory that holds the link. -/
  | link (target : Path)

def FileEntry.isDirectory : FileEntry → Bool
  | .directory => true
  | _ => false

structure FileTree where
  entries : List (Location × FileEntry)
  workingDirectory : Location := []

namespace FileTree

/-- The entry at a location; the root is always a directory. -/
def at? (t : FileTree) (loc : Location) : Option FileEntry :=
  if loc = [] then some .directory else t.entries.lookup loc

/-- A table with the entry of one location set. A new location goes to the end. -/
def putIn (loc : Location) (e : FileEntry) :
    List (Location × FileEntry) → List (Location × FileEntry)
  | [] => [(loc, e)]
  | (l, old) :: rest => if l = loc then (l, e) :: rest else (l, old) :: putIn loc e rest

def put (t : FileTree) (loc : Location) (e : FileEntry) : FileTree :=
  { t with entries := putIn loc e t.entries }

theorem lookup_putIn_same (loc : Location) (e : FileEntry) (es : List (Location × FileEntry)) :
    (putIn loc e es).lookup loc = some e := by
  induction es with
  | nil => simp [putIn]
  | cons head rest ih =>
    obtain ⟨l, old⟩ := head
    by_cases h : l = loc
    · simp [putIn, h]
    · have hb : (loc == l) = false := by simpa using fun hc => h hc.symm
      simp [putIn, h, List.lookup_cons, hb, ih]

theorem lookup_putIn_other {loc other : Location} (e : FileEntry)
    (es : List (Location × FileEntry)) (h : other ≠ loc) :
    (putIn loc e es).lookup other = es.lookup other := by
  have hb : (other == loc) = false := by simpa using h
  induction es with
  | nil => simp [putIn, List.lookup_cons, hb]
  | cons head rest ih =>
    obtain ⟨l, old⟩ := head
    by_cases hl : l = loc
    · subst hl; simp [putIn, List.lookup_cons, hb]
    · simp [putIn, hl, List.lookup_cons, ih]

/-- The entry put at a location is there. -/
theorem at?_put_same (t : FileTree) {loc : Location} (e : FileEntry) (h : loc ≠ []) :
    (t.put loc e).at? loc = some e := by
  simp [at?, put, h, lookup_putIn_same]

/-- Every other location is as before. -/
theorem at?_put_other (t : FileTree) {loc other : Location} (e : FileEntry) (h : other ≠ loc) :
    (t.put loc e).at? other = t.at? other := by
  simp [at?, put, lookup_putIn_other e t.entries h]

/-- The name of a location directly below a directory. -/
def nameBelow? (directory loc : Location) : Option Bytes :=
  if directory.isPrefixOf loc then
    match loc.drop directory.length with
    | [name] => some name
    | _ => none
  else none

/-- The names in a directory, in the order in which it lists them. -/
def children (t : FileTree) (directory : Location) : List Bytes :=
  t.entries.filterMap fun entry => nameBelow? directory entry.1

def sortedChildren (t : FileTree) (directory : Location) : List Bytes :=
  (t.children directory).mergeSort fun a b => (compare a b).isLE

/-- What stands at a location and below it, each directory before its contents and siblings in byte
order. -/
def listing (t : FileTree) (loc : Location) : List (Location × FileEntry) :=
  (t.entries.filter fun entry => loc.isPrefixOf entry.1).mergeSort
    fun a b => (compare a.1 b.1).isLE

/-- The tree without a location and all that lies below it. -/
def remove (t : FileTree) (loc : Location) : FileTree :=
  { t with entries := t.entries.filter fun entry => !loc.isPrefixOf entry.1 }

end FileTree
end BillOfMaterials
