import BillOfMaterials.Path

/-!
# Packaged binaries

Among the files of an unpacked archive the binaries are those with the configured extension. They
are listed by their file names in the order of their whole paths, so the list does not depend on the
order of the archive.
-/
namespace BillOfMaterials.Binary

/-- The paths of the binaries, in the order of paths. -/
def paths (extension : String) (files : List Path) : List Path :=
  (files.filter fun file => file.extension? == some (Text.bytes extension)).mergeSort
    fun a b => (Path.order a b).isLE

/-- The file names of the binaries, as text. -/
def names (extension : String) (files : List Path) : List String :=
  (paths extension files).filterMap fun file => file.fileName?.map Text.ofBytes

end BillOfMaterials.Binary
