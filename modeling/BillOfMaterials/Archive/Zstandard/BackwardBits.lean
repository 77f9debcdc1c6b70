import BillOfMaterials.Archive.Number
import BillOfMaterials.Archive.PrefixCode

/-!
# Bits from the end

Some parts of a frame are read from their last bit to their first. The highest bit that is set in the
last byte marks the end. Bits before the first one are zero, and how far reading has gone beyond it is
remembered, for a part may have to end exactly there.
-/
namespace BillOfMaterials.Archive.Zstandard

structure BackwardBits where
  bytes : ByteArray
  /-- How many bits are left; negative after reading beyond the first one. -/
  left : Int

namespace BackwardBits

/-- The bits of the bytes before a place. The highest bit that is set in the last of them marks the end;
there is no mark if there is none. -/
def before (bytes : ByteArray) (place : Nat) : BackwardBits :=
  let last := (numberAt? bytes (place - 1) 1).getD 0
  ⟨bytes, 8 * (place - 1) + if last = 0 then 8 else last.log2⟩

/-- The bits of bytes, of which the last one must not be zero. -/
def ofBytes? (bytes : ByteArray) : Option BackwardBits := do
  guard (0 < bytes.size ∧ numberAt? bytes (bytes.size - 1) 1 ≠ some 0)
  pure (before bytes bytes.size)

/-- The number of the next `count` bits, without reading them. -/
def peek (b : BackwardBits) (count : Nat) : Nat :=
  let left := b.left.toNat
  let held := min count left
  let bits := (BitSource.upwards b.bytes).lowestFirst (left - held) held
  bits.toOption.getD 0 <<< (count - held)

def skip (b : BackwardBits) (count : Nat) : BackwardBits := { b with left := b.left - count }

/-- Goes on by `count` bits, but not beyond the first one if it has not yet been passed. -/
def skipHeld (b : BackwardBits) (count : Nat) : BackwardBits :=
  if b.left ≤ 0 then b else { b with left := max 0 (b.left - count) }

/-- The same bits, but beyond the first one those of the first eight bytes come again and again, from
their end. -/
def recycled (b : BackwardBits) : BackwardBits :=
  if 0 < b.left then b
  else ⟨b.bytes.extract 0 8 ++ ⟨Array.replicate (8 - b.bytes.size) 0⟩, (b.left - 1) % 64 + 1⟩

/-- The number of the next `count` bits, and the bits after them. -/
def read (b : BackwardBits) (count : Nat) : Nat × BackwardBits := (b.peek count, b.skip count)

end BackwardBits
end BillOfMaterials.Archive.Zstandard
