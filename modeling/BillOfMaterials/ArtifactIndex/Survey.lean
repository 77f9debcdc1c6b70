import BillOfMaterials.ArtifactIndex
import BillOfMaterials.Failure
import BillOfMaterials.FileTree.Walk

/-!
# Surveying a local repository

The index of a repository that exists: every file with the configured extension that a walk reaches
is recorded, in the order of the walk. A file whose path is no text cannot be named in a manifest and
is passed over.
-/
namespace BillOfMaterials.ArtifactIndex

/-- The path that leads from the root of the repository along names. -/
def pathTo (root : Path) (names : List Bytes) : Path :=
  names.foldl (fun path name => path.join ⟨name⟩) root

/-- Takes one sighting of the walk into the index. -/
def take (extension : String) (index : ArtifactIndex) :
    FileTree.Sighting → Logged Failure ArtifactIndex
  | .fault _ => throw .brokenRepository
  | .file names => do
    let path := pathTo index.root names
    if !path.isText then
      Logged.note .warn .index ("skipping non-UTF-8 path " ++ path.text)
      return index
    if path.extension? = some (Text.bytes extension) then
      let (recorded, log) := index.recordLogged path
      Logged.write log
      return recorded
    return index

/-- The index of the repository in a directory. -/
def survey (t : FileTree) (root : Path) (extension : String) : Logged Failure ArtifactIndex := do
  match t.directory? root with
  | none => throw (.noRepository root)
  | some directory =>
    let index ← (t.sightings directory).foldlM (take extension) (empty root)
    Logged.note .debug .index
      ("indexed " ++ toString index.size ++ " artifacts under " ++ root.text)
    return index

end BillOfMaterials.ArtifactIndex
