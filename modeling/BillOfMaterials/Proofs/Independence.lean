import BillOfMaterials.Mapping
import BillOfMaterials.Proofs.Sorting

/-!
# What a distribution does not depend on

The files of an archive may be stored in any order. Binaries are sorted by the components of their
paths, and components are all that is read of a path afterwards: so where the order leaves two
spellings of one path as they stand, they have the same file name.
-/
namespace BillOfMaterials

/-- The file name that components end in. -/
def Path.nameOf? (cs : List Component) : Option Bytes :=
  match cs.getLast? with
  | some (.name bytes) => some bytes
  | _ => none

namespace Binary

variable {files files' : List Path}

/-- The binaries are listed in one order, as far as components tell paths apart. -/
theorem components_paths_perm (extension : String) (h : files.Perm files') :
    (paths extension files).map Path.components = (paths extension files').map Path.components := by
  have horder (a b : Path) : Path.order a b =
      List.compareLex Path.Component.order a.components b.components := rfl
  exact SortedBy.map_key horder (.mergeSort _) (.mergeSort _) (h.filter _)

theorem names_perm (extension : String) (h : files.Perm files') :
    names extension files = names extension files' := by
  have hnames (fs : List Path) : names extension fs =
      ((paths extension fs).map Path.components).filterMap fun cs =>
        (Path.nameOf? cs).map Text.ofBytes := by
    rw [List.filterMap_map]
    rfl
  rw [hnames, hnames, components_paths_perm extension h]

end Binary

/-- The distribution of an archive does not depend on the order in which its files are listed: the
same coordinates and the same unknown binaries, in the same order. -/
theorem Mapping.distribution_perm (m : Mapping) (archive extension : String)
    {files files' : List Path} (h : files.Perm files') :
    m.distribution archive (Binary.names extension files) =
      m.distribution archive (Binary.names extension files') := by
  rw [Binary.names_perm extension h]

/-- Three spellings of one path, a name that is no text, and a path through `..` to a file of the
same name. -/
def respelled : List Path :=
  [.ofString "lib/ecj-3.jar", .ofString "lib//ecj-3.jar", .ofString "lib/./ecj-3.jar",
    ⟨[0xFF, 0x2E, 0x6A, 0x61, 0x72]⟩, .ofString "bin/../ecj-3.jar"]

theorem Mapping.distribution_respelled :
    respelled.Perm respelled.reverse ∧
      (⟨{}, .empty (.ofString "m2")⟩ : Mapping).distribution "a.zip"
          (Binary.names "jar" respelled) =
        (⟨{}, .empty (.ofString "m2")⟩ : Mapping).distribution "a.zip"
          (Binary.names "jar" respelled.reverse) := by
  have hperm : respelled.Perm respelled.reverse := (List.reverse_perm respelled).symm
  exact ⟨hperm, Mapping.distribution_perm _ "a.zip" "jar" hperm⟩

end BillOfMaterials
