import BillOfMaterials.Archive.Zstandard.Frame

/-!
# Framed data

Data are frames, one after the other, some of which hold nothing and are passed over. A frame that ends
too early is a fault, and so is the absence of any frame.
-/
namespace BillOfMaterials.Archive.Zstandard

/-- The first of sixteen signatures of frames that are passed over. -/
def emptySignature : Nat := 0x184D2A50

/-- Unpacks frames until nothing is left. The number bounds how many there can be. -/
def readFrames (packed : ByteArray) : Nat → Nat → ByteArray → Unpacked
  | 0, _, out => ⟨out, false⟩
  | fuel + 1, position, out =>
    match numberAt? packed position 4 with
    | none => ⟨out, position = packed.size ∧ 0 < position⟩
    | some mark =>
      if mark = signature then
        match readFrame packed position out with
        | .error out => ⟨out, false⟩
        | .ok (out, position) => readFrames packed fuel position out
      else if mark / 16 = emptySignature / 16 then
        match numberAt? packed (position + 4) 4 with
        | none => ⟨out, false⟩
        | some size =>
          if packed.size < position + 8 + size then ⟨out, false⟩
          else readFrames packed fuel (position + 8 + size) out
      else ⟨out, false⟩

def unpack (packed : ByteArray) : Unpacked := readFrames packed (packed.size + 1) 0 .empty

end BillOfMaterials.Archive.Zstandard
