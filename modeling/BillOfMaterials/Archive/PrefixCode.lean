import BillOfMaterials.Archive.Packed

/-!
# Prefix codes

Frequent symbols have short words of bits, and no word begins another. It is enough to know the lengths
of the words: shorter words come first, and words of one length follow each other in the order of their
symbols. A code may leave words unused; meeting one of these is a fault.
-/
namespace BillOfMaterials.Archive

/-- Reads one bit at a position. -/
abbrev BitSource := Nat → Except Stop Nat

namespace BitSource

/-- The number of `width` bits, lowest bit first. -/
def lowestFirst (bit : BitSource) (position : Nat) : Nat → Except Stop Nat
  | 0 => .ok 0
  | width + 1 => do
    let low ← bit position
    let high ← lowestFirst bit (position + 1) width
    return low + 2 * high

/-- The number of `width` bits, highest bit first, added to what stands before them. -/
def highestFirst (bit : BitSource) (position : Nat) : Nat → Nat → Except Stop Nat
  | before, 0 => .ok before
  | before, width + 1 => do
    let b ← bit position
    highestFirst bit (position + 1) (2 * before + b) width

/-- The bits of bytes, those of each byte lowest first. -/
def upwards (bytes : ByteArray) : BitSource := fun position =>
  if h : position / 8 < bytes.size then
    .ok ((bytes[position / 8].toNat >>> (position % 8)) % 2)
  else .error .ended

/-- The bits of bytes, those of each byte highest first. -/
def downwards (bytes : ByteArray) : BitSource := fun position =>
  if h : position / 8 < bytes.size then
    .ok ((bytes[position / 8].toNat >>> (7 - position % 8)) % 2)
  else .error .ended

end BitSource

structure PrefixCode where
  /-- How many words there are of the lengths one, two, and so on. -/
  counts : List Nat
  /-- The symbols in the order of their words. -/
  symbols : Array Nat

namespace PrefixCode

/-- The code in which the symbol at each place has a word of the length given there, or none for the
length zero. No word is longer than `longest`. -/
def ofLengths (longest : Nat) (lengths : List Nat) : PrefixCode :=
  let ofLength (n : Nat) := (lengths.zipIdx.filter fun s => s.1 == n).map (·.2)
  let byLength := (List.range longest).map fun n => ofLength (n + 1)
  ⟨byLength.map List.length, byLength.flatten.toArray⟩

/-- How many words of full length a code leaves unused; negative if it has too many words. -/
def slack (c : PrefixCode) : Int :=
  c.counts.foldl (fun (left : Int) (count : Nat) => 2 * left - count) 1

/-- Whether every sequence of bits begins with a word, and only one. -/
def isComplete (c : PrefixCode) : Bool := c.slack = 0

/-- Reads one word: its symbol and the position after it. The numbers are the bits read so far, the
first word of the present length, and the number of shorter words. Reading stops where no longer word
can follow. -/
def readWord (bit : BitSource) (symbols : Array Nat) (position bits first shorter : Nat) :
    List Nat → Except Stop (Nat × Nat)
  | [] => .error .invalid
  | count :: counts => do
    let bits := bits + (← bit position)
    if bits < first + count then
      return (← orInvalid symbols[shorter + (bits - first)]?, position + 1)
    else if bits < first + count + counts.sum then
      readWord bit symbols (position + 1) (2 * bits) (2 * (first + count)) (shorter + count) counts
    else .error .invalid

def read (c : PrefixCode) (bit : BitSource) (position : Nat) : Except Stop (Nat × Nat) :=
  readWord bit c.symbols position 0 0 0 c.counts

end PrefixCode
end BillOfMaterials.Archive
