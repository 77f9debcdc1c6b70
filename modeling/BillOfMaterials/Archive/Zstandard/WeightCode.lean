import BillOfMaterials.Archive.Number
import BillOfMaterials.Archive.Zstandard.StateTable

/-!
# Prefix codes by weight

The words of a prefix code are given by weights: the higher the weight, the shorter the word. Where
there are many symbols in few bytes, two short words are read at once.
-/
namespace BillOfMaterials.Archive.Zstandard

/-- A prefix code that is looked up by the next `width` bits: the symbol and the length of its word. -/
structure WeightCode where
  width : Nat
  cells : Array (UInt8 × Nat)
  /-- Whether two symbols are read at once where both words are short. -/
  isPaired : Bool := false

namespace WeightCode

/-- The largest weight, and the longest word. -/
def maxWidth : Nat := 12

def cellCount (weight : Nat) : Nat := (1 <<< weight) / 2

/-- The code of symbols with given weights, of which the last is left out: it fills what the others
leave of a power of two. -/
def ofWeights? (weights : List Nat) : Option WeightCode := do
  guard (weights.all (· ≤ maxWidth))
  let total := weights.foldl (fun sum weight => sum + cellCount weight) 0
  guard (0 < total ∧ weights.length < 256)
  let width := total.log2 + 1
  guard (width ≤ maxWidth)
  let rest := (1 <<< width) - total
  guard (rest = 1 <<< rest.log2)
  let weights := weights ++ [rest.log2 + 1]
  let least := weights.count 1
  guard (2 ≤ least ∧ least % 2 = 0)
  let cells := (List.range width).flatMap fun n =>
    (weights.zipIdx.filter fun w => w.1 = n + 1).flatMap fun (weight, symbol) =>
      List.replicate (cellCount weight) (symbol.toUInt8, width + 1 - weight)
  pure { width, cells := cells.toArray }

/-- Weights from two states that take turns, until the bits are used up. The number is how many weights
there may be. -/
def walk (t : StateTable) : Nat → Nat → Nat → BackwardBits → Option (List Nat)
  | 0, _, _, _ | 1, _, _, _ => none
  | room + 2, first, second, bits =>
    let weight := (t.cell first).symbol
    let (next, bits) := t.next first bits
    if bits.left < 0 then some [weight, (t.cell second).symbol]
    else (walk t (room + 1) second next bits).map (weight :: ·)

/-- The weights that bytes packed by states stand for. -/
def packedWeights? (bytes : ByteArray) : Option (List Nat) := do
  let (t, length) ← StateTable.read? bytes 256 6
  let bits ← BackwardBits.ofBytes? (bytes.extract length bytes.size)
  let (first, bits) := t.start bits
  let (second, bits) := t.start bits
  guard (0 ≤ bits.left)
  walk t 255 first second bits

/-- `count` weights of four bits each, the first one of two in the upper half of a byte. -/
def plainWeights (bytes : ByteArray) (count : Nat) : List Nat :=
  (bytes.data.toList.flatMap fun b => [b.toNat / 16, b.toNat % 16]).take count

/-- The code that bytes begin with, and how many of them describe it. -/
def read? (bytes : ByteArray) : Option (WeightCode × Nat) := do
  let head ← numberAt? bytes 0 1
  let length := if head < 128 then head else (head - 127 + 1) / 2
  guard (0 < length ∧ 1 + length ≤ bytes.size)
  let part := bytes.extract 1 (1 + length)
  let weights ← if head < 128 then packedWeights? part else some (plainWeights part (head - 127))
  pure (← ofWeights? weights, 1 + length)

/-! ## Looking up -/

/-- How many bits are looked at when two symbols are read at once. -/
def window (c : WeightCode) : Nat := max 11 c.width

/-- The symbol whose word comes next, and the length of the word. -/
def wordAt (c : WeightCode) (bits : BackwardBits) : UInt8 × Nat :=
  c.cells.getD (bits.peek c.width) (0, 0)

structure Look where
  first : UInt8
  second : Option UInt8 := none
  /-- How many bits the words have. -/
  length : Nat

/-- What is read at once at a place: two symbols if the code is paired and both words lie in the
window, else one. -/
def lookAt (c : WeightCode) (bits : BackwardBits) : Look :=
  let bits := bits.recycled
  let (first, length) := c.wordAt bits
  if c.isPaired then
    let (second, further) := c.wordAt (bits.skip length)
    if length + further ≤ c.window then ⟨first, some second, length + further⟩
    else { first, length }
  else { first, length }

/-! ## One symbol at a time, or two -/

/-- The effort to read one symbol at a time, and that to read two: each is a part for the code and a
part for every 256 symbols. There is a row for each number of sixteenths that the packed bytes are of
the symbols. -/
def efforts : Array ((Nat × Nat) × (Nat × Nat)) :=
  #[((0, 0), (1, 1)), ((0, 0), (1, 1)), ((150, 216), (381, 119)), ((170, 205), (514, 112)),
    ((177, 199), (539, 110)), ((197, 194), (644, 107)), ((221, 192), (735, 107)),
    ((256, 189), (881, 106)), ((359, 188), (1167, 109)), ((582, 187), (1570, 114)),
    ((688, 187), (1712, 122)), ((825, 186), (1965, 136)), ((976, 185), (2131, 150)),
    ((1180, 186), (2070, 175)), ((1377, 185), (1731, 202)), ((1412, 185), (1695, 202))]

/-- Whether it takes less effort to read two symbols at a time, when `count` symbols are packed in
`packed` bytes. The memory that two take counts as another 32nd part. -/
def paysInPairs (count packed : Nat) : Bool :=
  let row := if count ≤ packed then 15 else 16 * packed / count
  let (one, two) := efforts.getD row ((0, 0), (0, 0))
  let effort (part : Nat × Nat) := part.1 + part.2 * (count / 256)
  effort two + effort two / 32 < effort one

end WeightCode
end BillOfMaterials.Archive.Zstandard
