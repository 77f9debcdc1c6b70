import BillOfMaterials.FileTree.Lookup

/-!
# Temporary directories

Work that needs a place of its own is done in a new directory of the tree, and the directory is
removed with all that it holds once the work is done, whether the work succeeded or not.
-/
namespace BillOfMaterials.FileTree

/-- Where a new directory at a path would lie. Nothing may stand there, nor below; where every entry
lies in a directory, the first implies the second. -/
def vacancy? (t : FileTree) (p : Path) : Option Location :=
  match t.locate false p with
  | .ok (.absent directory name) =>
    if t.entries.any fun entry => (directory ++ [name]).isPrefixOf entry.1 then none
    else some (directory ++ [name])
  | _ => none

/-- Does work in a tree with a new directory at a path, and removes the directory. -/
def withTemporary? {α : Type} (t : FileTree) (p : Path) (work : FileTree → FileTree × α) :
    Option (FileTree × α) :=
  (t.vacancy? p).map fun loc =>
    let (t', answer) := work (t.put loc .directory)
    (t'.remove loc, answer)

/-- A path just below the root at which nothing stands. -/
def unusedPath (t : FileTree) : Path :=
  let used := t.entries.filterMap (·.1.head?)
  let candidates := (List.range (used.length + 1)).map fun n =>
    Text.bytes ("unpacked" ++ toString (100000 + n))
  ⟨Path.slash :: (candidates.find? fun name => !used.contains name).getD []⟩

end BillOfMaterials.FileTree
