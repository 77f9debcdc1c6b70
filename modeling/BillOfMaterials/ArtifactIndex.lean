import BillOfMaterials.Coordinate
import BillOfMaterials.Log
import BillOfMaterials.Path
import Std.Data.TreeMap

/-!
# The index of a local repository

A local repository keeps a published file below its group, artifact and version:
`group/…/artifact/version/file`. The index finds a file again by its name; the module of the file is
then read off its path. Of several files with one name the index holds the one recorded last.
-/
namespace BillOfMaterials

structure ArtifactIndex where
  /-- The directory of the repository, as it was spelled. -/
  root : Path
  /-- The recorded path of each file name, names in byte order. -/
  files : Std.TreeMap Bytes Path

namespace ArtifactIndex

def empty (root : Path) : ArtifactIndex := ⟨root, ∅⟩

def size (index : ArtifactIndex) : Nat := index.files.size

def isEmpty (index : ArtifactIndex) : Bool := index.files.isEmpty

/-- The path that recording `path` puts out of the index. -/
def displaced? (index : ArtifactIndex) (path : Path) : Option Path :=
  path.fileName?.bind fun name => index.files[name]?

/-- Records a path under its file name; a path without a file name is passed over. -/
def record (index : ArtifactIndex) (path : Path) : ArtifactIndex :=
  match path.fileName? with
  | some name => { index with files := index.files.insert name path }
  | none => index

/-- What the log says when a recorded path is put out. -/
def displacement (old : Path) : LogRecord :=
  ⟨.debug, .index, "duplicate artifact file name; " ++ old.text ++ " replaced in index"⟩

/-- Records a path and logs the path that it put out, if any. -/
def recordLogged (index : ArtifactIndex) (path : Path) : ArtifactIndex × Log :=
  (index.record path, (index.displaced? path).toList.map displacement)

def lastFour? (name : String) : Option String :=
  let chars := name.toList
  if 4 ≤ chars.length then some (String.ofList (chars.drop (chars.length - 4))) else none

/-- The recorded path for a file name. Where the name is not recorded, the least recorded name that
begins with its last four characters stands in for it. -/
def find? (index : ArtifactIndex) (name : String) : Option Path :=
  (index.files[Text.bytes name]?).or <|
    (lastFour? name).bind fun tail =>
      (index.files.toList.find? fun entry => (Text.bytes tail).isPrefixOf entry.1).map (·.2)

/-- The module of a file that lies `group/…/artifact/version/file` below the root. -/
def coordinateOf? (root path : Path) : Option Coordinate :=
  (Path.below? root path).bind fun components =>
    match components.reverse with
    | _ :: version :: artifact :: segment :: group =>
      some ⟨Text.join "." ((segment :: group).reverse.map Path.Component.text), artifact.text,
        .fixed version.text⟩
    | _ => none

/-- The module of the file that the index finds for a name, and its path. -/
def identify? (index : ArtifactIndex) (name : String) : Option (Coordinate × Path) :=
  (index.find? name).bind fun path => (coordinateOf? index.root path).map (·, path)

end ArtifactIndex
end BillOfMaterials
