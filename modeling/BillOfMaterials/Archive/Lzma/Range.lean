import BillOfMaterials.Archive.Packed

/-!
# Range decoding

A range is divided in proportion to how likely a bit is to be zero, and the packed number says which
part it lies in. Likelihoods follow the bits that were met. When the range has become small, it is
widened by one byte, at once after the bit that made it so.
-/
namespace BillOfMaterials.Archive.Lzma

/-- Where range decoding stands. -/
structure Range where
  packed : ByteArray
  position : Nat
  /-- Where the packed number ends at the latest. -/
  stop : Nat
  width : UInt32
  number : UInt32
  /-- How likely each bit is to be zero, in parts of 2048. -/
  likelihoods : Array UInt16

/-- A step that keeps what it has done when it stops. -/
abbrev RangeStep := ExceptT Stop (StateM Range)

namespace Range

def even : UInt16 := 1024

def byte : RangeStep UInt8 := do
  let r ← get
  if h : r.position < r.packed.size ∧ r.position < r.stop then
    let b := r.packed[r.position]
    set { r with position := r.position + 1 }
    return b
  else throw .ended

/-- The next number of four bytes, highest byte first. -/
def word : RangeStep UInt32 := do
  let a ← byte
  let b ← byte
  let c ← byte
  let d ← byte
  return (a.toUInt32 <<< 24) ||| (b.toUInt32 <<< 16) ||| (c.toUInt32 <<< 8) ||| d.toUInt32

/-- Begins anew at the present position. The first byte does not count. -/
def start : RangeStep Unit := do
  let _ ← byte
  let number ← word
  modify fun r => { r with width := 0xFFFFFFFF, number }

def widen : RangeStep Unit := do
  if (← get).width < 0x01000000 then
    let b ← byte
    modify fun r => { r with width := r.width <<< 8, number := (r.number <<< 8) ||| b.toUInt32 }

/-- Takes the lower or the upper part of a range, as the packed number says, and learns from it. -/
def choose (place : Nat) (r : Range) : Nat × Range :=
  let likelihood := r.likelihoods.getD place even
  let bound := (r.width >>> 11) * likelihood.toUInt32
  if r.number < bound then
    (0, { r with
      width := bound
      likelihoods := r.likelihoods.setIfInBounds place (likelihood + ((2048 - likelihood) >>> 5)) })
  else
    (1, { r with
      width := r.width - bound
      number := r.number - bound
      likelihoods := r.likelihoods.setIfInBounds place (likelihood - (likelihood >>> 5)) })

/-- The next bit, whose likelihood stands at a place. -/
def bit (place : Nat) : RangeStep Nat := do
  let b ← modifyGet (choose place)
  widen
  return b

/-- Takes the lower or the upper half of a range, as the packed number says. -/
def halve (r : Range) : Nat × Range :=
  let width := r.width >>> 1
  if width ≤ r.number then (1, { r with width, number := r.number - width })
  else (0, { r with width })

/-- A number of `count` bits with even odds, highest first, after what stands before them. -/
def plainBits (before : Nat) : Nat → RangeStep Nat
  | 0 => return before
  | count + 1 => do
    let b ← modifyGet halve
    widen
    plainBits (2 * before + b) count

/-- A number of `count` bits, highest first. The likelihood of each bit depends on those before it. -/
def tree (base : Nat) (count : Nat) : RangeStep Nat := do
  let rec go (node : Nat) : Nat → RangeStep Nat
    | 0 => return node
    | count + 1 => do go (2 * node + (← bit (base + node))) count
  return (← go 1 count) - (1 <<< count)

/-- A number of `count` bits, lowest first. The likelihood of each bit depends on those before it. -/
def reverseTree (base : Nat) (count : Nat) : RangeStep Nat :=
  let rec go (node weight sum : Nat) : Nat → RangeStep Nat
    | 0 => return sum
    | count + 1 => do
      let b ← bit (base + node)
      go (2 * node + b) (2 * weight) (sum + b * weight) count
  go 1 1 0 count

end Range
end BillOfMaterials.Archive.Lzma
