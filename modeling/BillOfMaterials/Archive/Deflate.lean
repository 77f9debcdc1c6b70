import BillOfMaterials.Archive.Deflate.Block

/-!
# Deflated data

The two methods that deflate data, and what each of them hands out before a fault.
-/
namespace BillOfMaterials.Archive.Deflate

/-- Unpacks data of the narrow scheme. Data that end too early hand out everything; a breach of the
rules loses the portion that was to be filled. -/
def unpack (packed : ByteArray) : Unpacked :=
  match readAll .narrow packed with
  | .ok out => ⟨out, true⟩
  | .error ⟨.ended, out⟩ => ⟨out, false⟩
  | .error ⟨.invalid, out⟩ => ⟨handedOut 32768 out, false⟩

/-- Unpacks data of the wide scheme. Data that end too early count as complete; a breach of the rules
loses the portion that was not yet filled. -/
def unpackWide (packed : ByteArray) : Unpacked :=
  match readAll .wide packed with
  | .ok out => ⟨out, true⟩
  | .error ⟨.ended, out⟩ => ⟨out, true⟩
  | .error ⟨.invalid, out⟩ => ⟨out.extract 0 (out.size / 8192 * 8192), false⟩

end BillOfMaterials.Archive.Deflate
