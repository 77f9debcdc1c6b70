import BillOfMaterials.Archive.Zstandard.Literals
import BillOfMaterials.Archive.Zstandard.Room

/-!
# Sequences of a block

A block is put together from sequences: some of its literals, and a part that is repeated from further
back. How many literals, how long the part and how far back it is are told by codes, each with some
further bits, and the codes by three state tables. The last three distances have short forms.
-/
namespace BillOfMaterials.Archive.Zstandard

/-- The least number that a code stands for, and the number of bits that are added to it. -/
abbrev Bases := Array (Nat × Nat)

def literalBases : Bases :=
  ((List.range 16).map fun n => (n, 0)).toArray ++
    #[(16, 1), (18, 1), (20, 1), (22, 1), (24, 2), (28, 2), (32, 3), (40, 3), (48, 4), (64, 6),
      (128, 7), (256, 8), (512, 9), (1024, 10), (2048, 11), (4096, 12), (8192, 13), (16384, 14),
      (32768, 15), (65536, 16)]

def lengthBases : Bases :=
  ((List.range 32).map fun n => (n + 3, 0)).toArray ++
    #[(35, 1), (37, 1), (39, 1), (41, 1), (43, 2), (47, 2), (51, 3), (59, 3), (67, 4), (83, 4),
      (99, 5), (131, 7), (259, 8), (515, 9), (1027, 10), (2051, 11), (4099, 12), (8195, 13),
      (16387, 14), (32771, 15), (65539, 16)]

/-- The distance, of which the three least values are short forms. -/
def distanceBases : Bases := ((List.range 32).map fun n => (1 <<< n, n)).toArray

/-- A kind of codes: what they stand for, the most bits of a state, and the table that is used if none
is given. -/
structure CodeKind where
  bases : Bases
  maxWidth : Nat
  usual : StateTable

def CodeKind.literals : CodeKind where
  bases := literalBases
  maxWidth := 9
  usual := .ofCounts 6 [4, 3, 2, 2, 2, 2, 2, 2, 2, 2, 2, 2, 2, 1, 1, 1, 2, 2, 2, 2, 2, 2, 2, 2, 2, 3,
    2, 1, 1, 1, 1, 1, -1, -1, -1, -1]

def CodeKind.length : CodeKind where
  bases := lengthBases
  maxWidth := 9
  usual := .ofCounts 6 ([1, 4, 3, 2, 2, 2, 2, 2, 2] ++ List.replicate 37 1 ++ List.replicate 7 (-1))

def CodeKind.distance : CodeKind where
  bases := distanceBases
  maxWidth := 8
  usual := .ofCounts 5 ([1, 1, 1, 1, 1, 1, 2, 2, 2] ++ List.replicate 15 1 ++ List.replicate 5 (-1))

structure Tables where
  literals : StateTable
  distance : StateTable
  length : StateTable

/-- What a block leaves to the next one. -/
structure Memory where
  code : Option WeightCode := none
  tables : Option Tables := none
  /-- The last three distances, the latest first. -/
  recent : Nat × Nat × Nat := (1, 4, 8)

namespace Sequences

/-- A table as its mode says: the usual one, one of a single symbol, one that is described, or the one
of the block before. The answer is the table and the position after its description. -/
def table? (block : ByteArray) (kind : CodeKind) (mode position : Nat) (before : Option StateTable) :
    Option (StateTable × Nat) :=
  match mode with
  | 0 => some (kind.usual, position)
  | 1 => do
    let symbol ← numberAt? block position 1
    guard (symbol < kind.bases.size)
    pure (.constant symbol, position + 1)
  | 2 => do
    let (t, length) ←
      StateTable.read? (block.extract position block.size) kind.bases.size kind.maxWidth
    pure (t, position + length)
  | _ => before.map (·, position)

def count? (block : ByteArray) (position : Nat) : Option (Nat × Nat) := do
  let head ← numberAt? block position 1
  if head < 128 then pure (head, position + 1)
  else if head < 255 then
    pure (0x100 * (head - 128) + (← numberAt? block (position + 1) 1), position + 2)
  else pure ((← numberAt? block (position + 1) 2) + 0x7F00, position + 3)

def tables? (block : ByteArray) (position : Nat) (before : Option Tables) : Option (Tables × Nat) := do
  let modes ← numberAt? block position 1
  guard (modes % 4 = 0)
  let (literals, next) ←
    table? block .literals (modes / 64) (position + 1) (before.map (·.literals))
  let (distance, next) ← table? block .distance (modes / 16 % 4) next (before.map (·.distance))
  let (length, next) ← table? block .length (modes / 4 % 4) next (before.map (·.length))
  pure (⟨literals, distance, length⟩, next)

/-- Where putting a block together stands. -/
structure Progress where
  bits : BackwardBits
  literalState : Nat
  distanceState : Nat
  lengthState : Nat
  recent : Nat × Nat × Nat
  /-- How many literals have been used. -/
  used : Nat
  out : ByteArray

/-- The distance that a value stands for, and the last distances after it. Without literals before it,
the short forms leave out the latest distance and end in one less than it. -/
def distanceOf (value : Nat) (noLiterals : Bool) (recent : Nat × Nat × Nat) : Nat × (Nat × Nat × Nat) :=
  let (a, b, c) := recent
  if 3 < value then (value - 3, (value - 3, a, b))
  else
    match if noLiterals then value + 1 else value with
    | 1 => (a, (a, b, c))
    | 2 => (b, (b, a, c))
    | 3 => (c, (c, a, b))
    | _ => (a - 1, (a - 1, a, b))

def Progress.step (p : Progress) (t : Tables) : Progress :=
  let (literalState, bits) := t.literals.next p.literalState p.bits
  let (lengthState, bits) := t.length.next p.lengthState bits
  let (distanceState, bits) := t.distance.next p.distanceState bits
  { p with bits, literalState, distanceState, lengthState }

def put (t : Tables) (literals : ByteArray) (room : Room) : Nat → Progress → Option Progress
  | 0, p => if p.bits.left = 0 then some p else none
  | count + 1, p => do
    let (distanceBase, distanceWidth) ← distanceBases[(t.distance.cell p.distanceState).symbol]?
    let (lengthBase, lengthWidth) ← lengthBases[(t.length.cell p.lengthState).symbol]?
    let (literalBase, literalWidth) ← literalBases[(t.literals.cell p.literalState).symbol]?
    let (more, bits) := p.bits.read distanceWidth
    let value := distanceBase + more
    let (more, bits) := bits.read lengthWidth
    let length := lengthBase + more
    let (more, bits) := bits.read literalWidth
    let literalCount := literalBase + more
    let (distance, recent) := distanceOf value (literalBase = 0) p.recent
    guard (p.used + literalCount ≤ literals.size)
    let out := p.out ++ literals.extract p.used (p.used + literalCount)
    let out ← room.repeat? distance length out
    let used := p.used + literalCount
    let p := { p with bits, recent, used, out }
    put t literals room count (if count = 0 then p else p.step t)

/-- Puts a block together: all data with it, and what it leaves to the next one. -/
def run? (block : ByteArray) (room : Room) (limit : Nat) (m : Memory) (out : ByteArray) :
    Option (ByteArray × Memory) := do
  let literals ← Literals.read? block limit m.code
  let m := { m with code := literals.code }
  let (count, position) ← count? block literals.length
  if count = 0 then
    guard (position = block.size)
    pure (out ++ literals.bytes, m)
  else
    let (t, position) ← tables? block position m.tables
    let bits ← BackwardBits.ofBytes? (block.extract position block.size)
    let (literalState, bits) := t.literals.start bits
    let (distanceState, bits) := t.distance.start bits
    let (lengthState, bits) := t.length.start bits
    let p ← put t literals.bytes room count
      { bits, literalState, distanceState, lengthState, recent := m.recent, used := 0, out }
    pure (p.out ++ literals.bytes.extract p.used literals.bytes.size,
      { m with tables := some t, recent := p.recent })

end Sequences
end BillOfMaterials.Archive.Zstandard
