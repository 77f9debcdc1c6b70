import BillOfMaterials.Archive.Lzma.Range
import BillOfMaterials.Archive.Repetition

/-!
# Symbols of range-coded data

Data are literal bytes and matches, each a part that came before. How likely a symbol is depends on the
kinds of the last ones, on the position, and, for literals, on the byte before. The last four distances
have short forms.
-/
namespace BillOfMaterials.Archive.Lzma

/-- How much literals and positions count. -/
structure Properties where
  /-- How many bits of the byte before count for a literal. -/
  literalContext : Nat
  /-- How many bits of the position count for a literal. -/
  literalPosition : Nat
  /-- How many bits of the position count for other symbols. -/
  position : Nat

def Properties.ofNumber? (n : Nat) : Option Properties :=
  if n < 225 then some ⟨n % 9, n / 9 % 5, n / 45⟩ else none

/-! ## Places of likelihoods -/

namespace Place

def isMatch : Nat := 0
def isRepeated : Nat := 192
def isOlder : Nat := 204
def isThird : Nat := 216
def isFourth : Nat := 228
def isLong : Nat := 240
def slots : Nat := 432
def distances : Nat := 688
def alignment : Nat := 816
def newLength : Nat := 832
def repeatedLength : Nat := 1346
def literals : Nat := 1860

end Place

/-- How many likelihoods belong to one context of literals. -/
def literalSize : Nat := 0x300

def evenLikelihoods (p : Properties) : Array UInt16 :=
  .replicate (Place.literals + (literalSize <<< (p.literalContext + p.literalPosition))) Range.even

/-! ## Decoding -/

/-- Where decoding stands. -/
structure Decoder where
  properties : Properties
  /-- The kinds of the last symbols, as a number below twelve. -/
  kinds : Nat
  /-- The last four distances, the latest first, each less one. -/
  recent : List Nat
  out : ByteArray
  /-- Where what may be repeated begins. -/
  origin : Nat
  /-- The greatest distance of a match; none if there is no limit. -/
  reach : Option Nat

/-- A step that keeps what it has done when it stops. -/
abbrev Step := ExceptT Stop (StateT Decoder (StateM Range))

instance : MonadLift RangeStep Step where
  monadLift x := ExceptT.mk fun d r =>
    let (answer, r) := x.run.run r
    ((answer, d), r)

namespace Decoder

def fresh (properties : Properties) (reach : Option Nat) : Decoder :=
  { properties, kinds := 0, recent := [0, 0, 0, 0], out := .empty, origin := 0, reach }

/-- How much may be repeated. -/
def length (d : Decoder) : Nat := d.out.size - d.origin

/-- The byte at a distance back, if it may be reached. -/
def back? (d : Decoder) (distance : Nat) : Option UInt8 :=
  let place := d.out.size - distance
  if h : 0 < distance ∧ distance ≤ d.out.size - d.origin ∧ place < d.out.size then
    if d.reach.all (distance ≤ ·) then some d.out[place] else none
  else none

def kindsAfterLiteral (kinds : Nat) : Nat :=
  if kinds < 4 then 0 else if kinds < 10 then kinds - 3 else kinds - 6

/-- The bits of the position that count. -/
def positionBits (d : Decoder) : Nat := d.length % (1 <<< d.properties.position)

/-- Reads the bits of a literal as long as they are those of the byte that would have been matched. -/
def matchedLiteral (base : Nat) : Nat → Nat → Nat → RangeStep Nat
  | 0, _, node => return node
  | fuel + 1, expected, node => do
    if 0x100 ≤ node then return node
    let e := expected / 0x80 % 2
    let b ← Range.bit (base + (1 + e) * 0x100 + node)
    let node := 2 * node + b
    if b = e then matchedLiteral base fuel (2 * expected) node else return node

/-- Reads the remaining bits of a literal. -/
def plainLiteral (base : Nat) : Nat → Nat → RangeStep Nat
  | 0, node => return node
  | fuel + 1, node => do
    if 0x100 ≤ node then return node
    plainLiteral base fuel (2 * node + (← Range.bit (base + node)))

def literal : Step Unit := do
  let d ← getThe Decoder
  let p := d.properties
  let before := if d.length = 0 then 0 else ((d.back? 1).getD 0).toNat
  let context := ((d.length % (1 <<< p.literalPosition)) <<< p.literalContext) +
    (before >>> (8 - p.literalContext))
  let base := Place.literals + literalSize * context
  let node ←
    if 7 ≤ d.kinds then
      match d.back? (d.recent.headD 0 + 1) with
      | some expected => matchedLiteral base 8 expected.toNat 1
      | none => throw .invalid
    else pure 1
  let node ← plainLiteral base 8 node
  modifyThe Decoder fun d =>
    { d with out := d.out.push node.toUInt8, kinds := kindsAfterLiteral d.kinds }

/-- Reads a length, less two. -/
def readLength (base positionBits : Nat) : RangeStep Nat := do
  if (← Range.bit base) = 0 then Range.tree (base + 2 + 8 * positionBits) 3
  else if (← Range.bit (base + 1)) = 0 then return 8 + (← Range.tree (base + 130 + 8 * positionBits) 3)
  else return 16 + (← Range.tree (base + 258) 8)

/-- Reads a distance, less one. -/
def readDistance (length : Nat) : RangeStep Nat := do
  let slot ← Range.tree (Place.slots + 64 * min length 3) 6
  if slot < 4 then return slot
  let count := slot / 2 - 1
  let base := (2 + slot % 2) <<< count
  if slot < 14 then
    return base + (← Range.reverseTree (Place.distances + base - slot) count)
  let high ← Range.plainBits 0 (count - 4)
  return base + 16 * high + (← Range.reverseTree Place.alignment 4)

/-- Appends a match with the latest distance. -/
def append (length : Nat) : Step Unit := do
  let d ← getThe Decoder
  let distance := d.recent.headD 0 + 1
  if (d.back? distance).isNone then throw .invalid
  modifyThe Decoder fun d => { d with out := repeatPart distance length d.out }

def endMark : Nat := 0xFFFFFFFF

/-- Reads which of the last distances is used again. -/
def readAge (kinds : Nat) : RangeStep Nat := do
  if (← Range.bit (Place.isThird + kinds)) = 0 then return 1
  else return 2 + (← Range.bit (Place.isFourth + kinds))

/-- Reads a match with one of the last distances. -/
def repeated (d : Decoder) : Step Unit := do
  let positionBits := d.positionBits
  if (← Range.bit (Place.isOlder + d.kinds)) = 0 then
    if (← Range.bit (Place.isLong + 16 * d.kinds + positionBits)) = 0 then
      modifyThe Decoder fun d => { d with kinds := if d.kinds < 7 then 9 else 11 }
      append 1
      return
  else
    let age ← readAge d.kinds
    modifyThe Decoder fun d => { d with recent := moveToFront age d.recent }
  let length ← readLength Place.repeatedLength positionBits
  modifyThe Decoder fun d => { d with kinds := if d.kinds < 7 then 8 else 11 }
  append (length + 2)

/-- Reads a match with a new distance. The answer is whether the distance marks the end; then the packed
number must have come to its end, too. -/
def new (d : Decoder) : Step Bool := do
  let length ← readLength Place.newLength d.positionBits
  let distance ← readDistance length
  modifyThe Decoder fun d =>
    { d with recent := distance :: d.recent.take 3, kinds := if d.kinds < 7 then 7 else 10 }
  if distance = endMark then
    let r ← getThe Range
    if r.number = 0 ∧ min r.stop r.packed.size ≤ r.position then return true
    throw .invalid
  append (length + 2)
  return false

/-- Reads one symbol. The answer is whether it marks the end. -/
def symbol : Step Bool := do
  let d ← getThe Decoder
  if (← Range.bit (Place.isMatch + 16 * d.kinds + d.positionBits)) = 0 then
    literal
    return false
  else if (← Range.bit (Place.isRepeated + d.kinds)) = 1 then
    repeated d
    return false
  else new d

/-- Reads symbols until `size` bytes have come out or the end is marked. The number bounds how many
symbols there can be. -/
def symbols (size : Nat) : Nat → Step Unit
  | 0 => return
  | fuel + 1 => do
    if size ≤ (← getThe Decoder).out.size then return
    if ← symbol then return
    symbols size fuel

/-- Runs a step: its answer, and what decoding and range decoding have come to. -/
def run (step : Step Unit) (d : Decoder) (r : Range) : Except Stop Unit × Decoder × Range :=
  let ((answer, d), r) := (step.run.run d).run r
  (answer, d, r)

end Decoder
end BillOfMaterials.Archive.Lzma
