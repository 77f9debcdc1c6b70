import BillOfMaterials.Failure
import BillOfMaterials.FileTree.Lookup
import BillOfMaterials.Log
import BillOfMaterials.Settings

/-!
# Selecting archives

The server archives among the files of a directory are told by how their names begin and end. They
are listed in the byte order of their names, whatever the order in which the directory lists them.

Whether a name is that of a file is asked from the directory. The limits on one path, `maxLinks` links
and `maxPath` bytes, are left out here: what the path of the directory takes does not count.
-/
namespace BillOfMaterials.Selection

/-- The names of the files in a directory, links followed. -/
def fileNames (t : FileTree) (directory : Location) : List Bytes :=
  (t.children directory).filter fun name =>
    match t.child? directory name with
    | some (_, .file _) => true
    | _ => false

def isArchive (settings : Settings) (name : String) : Bool :=
  Text.startsWith name settings.archivePrefix &&
    Text.endsWith name ("." ++ settings.archiveExtension)

/-- The names of the server archives among file names, in order. -/
def archiveNames (settings : Settings) (names : List Bytes) : List String :=
  ((names.filterMap Text.ofBytes?).filter (isArchive settings)).mergeSort
    fun a b => (Text.order a b).isLE

/-- What the log says of the file names that are no text. -/
def complaints (directory : Path) (names : List Bytes) : Log :=
  (names.filter fun name => !Text.wellFormed name).map fun _ =>
    ⟨.warn, .generation, "skipping non-UTF-8 entry in " ++ directory.text⟩

/-- The names of the server archives in a directory; there must be at least one. -/
def archives (t : FileTree) (directory : Path) (settings : Settings) :
    Logged Failure (List String) := do
  match t.directory? directory with
  | none => throw .system
  | some location =>
    let names := fileNames t location
    Logged.write (complaints directory names)
    match archiveNames settings names with
    | [] => throw (.noArchives directory settings.archivePrefix settings.archiveExtension)
    | selected =>
      Logged.note .debug .generation
        ("selected " ++ toString selected.length ++ " archive(s) in " ++ directory.text)
      return selected

end BillOfMaterials.Selection
