import BillOfMaterials.Archive.Bzip2
import BillOfMaterials.Archive.Deflate
import BillOfMaterials.Archive.Lzma
import BillOfMaterials.Archive.Xz
import BillOfMaterials.Archive.Zstandard

/-!
# Methods

The number in a header says how the data of an entry are packed.
-/
namespace BillOfMaterials.Archive

inductive Method where
  | stored
  | deflated
  | wideDeflated
  | sorted
  | rangeCoded
  | chunked
  | framed

namespace Method

def ofNumber? : Nat → Option Method
  | 0 => some .stored
  | 8 => some .deflated
  | 9 => some .wideDeflated
  | 12 => some .sorted
  | 14 => some .rangeCoded
  | 93 => some .framed
  | 95 => some .chunked
  | _ => none

def unpack : Method → ByteArray → Unpacked
  | .stored, packed => ⟨packed, true⟩
  | .deflated, packed => Deflate.unpack packed
  | .wideDeflated, packed => Deflate.unpackWide packed
  | .sorted, packed => Bzip2.unpack packed
  | .rangeCoded, packed => Lzma.unpack packed
  | .chunked, packed => Xz.unpack packed
  | .framed, packed => Zstandard.unpack packed

end Method
end BillOfMaterials.Archive
