import BillOfMaterials.Archive.Unpack
import BillOfMaterials.Completeness

/-!
# Failures of a run

What ends a run without manifests. All failures but the last two arise before anything is written.
-/
namespace BillOfMaterials

inductive Failure where
  | noArchiveDirectory (directory : Path)
  /-- No file of the directory is an archive of the project. -/
  | noArchives (directory : Path) (archivePrefix extension : String)
  | noRepository (root : Path)
  /-- The local repository holds a link that cannot be followed. -/
  | brokenRepository
  | unreadableTemplate (path : Path)
  /-- An archive cannot be unpacked. -/
  | archive (path : Path) (fault : UnpackFault)
  /-- Some packaged binaries are unknown. -/
  | incomplete (shortfalls : List Shortfall)
  | unwrittenManifest (path : Path)
  /-- A directory cannot be listed, or a private one not be made. -/
  | system
deriving DecidableEq

namespace Failure

def message : Failure → String
  | .noArchiveDirectory directory =>
    "distribution directory " ++ directory.text ++
      " does not exist; build the server distributions before running the generator"
  | .noArchives directory archivePrefix extension =>
    "no " ++ archivePrefix ++ "*." ++ extension ++ " archives found in " ++ directory.text
  | .noRepository root => "local repository " ++ root.text ++ " does not exist"
  | .brokenRepository => "failed to index local repository"
  | .unreadableTemplate path => "failed to read manifest template " ++ path.text
  | .archive path _ => "cannot unzip " ++ path.text
  | .incomplete shortfalls => Shortfall.report shortfalls
  | .unwrittenManifest path => "failed to write manifest " ++ path.text
  | .system => "I/O error"

end Failure
end BillOfMaterials
