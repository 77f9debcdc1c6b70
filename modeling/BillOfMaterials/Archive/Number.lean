/-!
# Numbers in archives

A number of several bytes has its lowest byte first.
-/
namespace BillOfMaterials.Archive

/-- The number of `width` bytes at a position. -/
def numberAt? (file : ByteArray) (position : Nat) : Nat → Option Nat
  | 0 => some 0
  | width + 1 =>
    if h : position < file.size then
      (numberAt? file (position + 1) width).map (file[position].toNat + 256 * ·)
    else none

def ofLowestFirst (bytes : List UInt8) : Nat := bytes.foldr (fun b n => b.toNat + 256 * n) 0

def isSignedAt (file : ByteArray) (signature position : Nat) : Bool :=
  numberAt? file position 4 == some signature

end BillOfMaterials.Archive
