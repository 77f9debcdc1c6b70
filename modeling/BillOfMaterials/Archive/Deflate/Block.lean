import BillOfMaterials.Archive.Deflate.Scheme
import BillOfMaterials.Archive.Repetition

/-!
# Deflated blocks

Deflated data are blocks, each stored as it is, or packed with codes that are fixed or that the block
brings along. A part that begins before all data repeats zeros.
-/
namespace BillOfMaterials.Archive.Deflate

/-- Where unpacking stands: the next bit of the packed data and what has come out. -/
structure Progress where
  bit : Nat
  out : ByteArray

/-- A step that may end in a fault, with what has come out before it. -/
abbrev Step := Except (Stop × ByteArray) Progress

/-- Adds to a fault what has come out. -/
def withOut {α : Type} (out : ByteArray) : Except Stop α → Except (Stop × ByteArray) α
  | .ok a => .ok a
  | .error stop => .error (stop, out)

/-! ## Symbols -/

/-- The repetition that a length symbol begins: its length, its distance and the position after it. -/
def readRepetition (s : Scheme) (bit : BitSource) (distances : Code) (symbol position : Nat) :
    Except Stop (Nat × Nat × Nat) := do
  let (length, width) ← orInvalid s.lengthBases[symbol - (blockEnd + 1)]?
  let moreLength ← bit.lowestFirst position width
  let (symbol, position) ← distances.read bit (position + width)
  let (distance, distanceWidth) ← orInvalid s.distanceBases[symbol]?
  let moreDistance ← bit.lowestFirst position distanceWidth
  return (length + moreLength, distance + moreDistance, position + distanceWidth)

/-- Unpacks symbols until the end of the block. The number bounds how many there can be. -/
def readSymbols (s : Scheme) (bit : BitSource) (literals distances : Code) :
    Nat → Progress → Step
  | 0, p => .error (.ended, p.out)
  | fuel + 1, p =>
    match literals.read bit p.bit with
    | .error stop => .error (stop, p.out)
    | .ok (symbol, next) =>
      if symbol < blockEnd then
        readSymbols s bit literals distances fuel ⟨next, p.out.push symbol.toUInt8⟩
      else if symbol = blockEnd then .ok ⟨next, p.out⟩
      else
        match readRepetition s bit distances symbol next with
        | .error stop => .error (stop, p.out)
        | .ok (length, distance, next) =>
          readSymbols s bit literals distances fuel ⟨next, repeatPart distance length p.out⟩

/-! ## Kinds of blocks -/

/-- A block whose bytes stand for themselves. -/
def readStored (packed : ByteArray) (p : Progress) : Step := do
  let bit := BitSource.upwards packed
  let start := (p.bit + 7) / 8
  let length ← withOut p.out (bit.lowestFirst (8 * start) 16)
  let complement ← withOut p.out (bit.lowestFirst (8 * start + 16) 16)
  withOut p.out (require (length + complement = 0xFFFF))
  let out := p.out ++ packed.extract (start + 4) (start + 4 + length)
  if packed.size < start + 4 + length then throw (.ended, out)
  return ⟨8 * (start + 4 + length), out⟩

/-- The codes of a block that brings none of its own. -/
def fixedCodes : Code × Code :=
  (.exact (.ofLengths longest (List.replicate 144 8 ++ List.replicate 112 9 ++
      List.replicate 24 7 ++ List.replicate 8 8)),
    .exact (.ofLengths longest (List.replicate 32 5)))

/-- The places of the code lengths in the description of a block's codes. -/
def lengthOrder : List Nat := [16, 17, 18, 0, 8, 7, 9, 6, 10, 5, 11, 4, 12, 3, 13, 2, 14, 1, 15]

def readTriples (bit : BitSource) (position : Nat) : Nat → Except Stop (List Nat)
  | 0 => .ok []
  | count + 1 => do
    let first ← bit.lowestFirst position 3
    let rest ← readTriples bit (position + 3) count
    return first :: rest

/-- Reads code lengths until there are `total`, newest first. The symbols 16, 17 and 18 repeat the
last length or zero. -/
def readLengths (bit : BitSource) (code : Code) (total : Nat) :
    Nat → Nat → List Nat → Except Stop (List Nat × Nat)
  | 0, _, _ => .error .ended
  | fuel + 1, position, lengths =>
    if total ≤ lengths.length then
      if lengths.length = total then .ok (lengths.reverse, position) else .error .invalid
    else do
      let (symbol, position) ← code.read bit position
      if symbol < 16 then readLengths bit code total fuel position (symbol :: lengths)
      else
        let (value, least, width) ←
          if symbol = 16 then (orInvalid lengths.head?).map fun last => (last, 3, 2)
          else .ok (0, if symbol = 17 then (3, 3) else (11, 7))
        let more ← bit.lowestFirst position width
        readLengths bit code total fuel (position + width)
          (List.replicate (least + more) value ++ lengths)

/-- The codes that a block brings, and the position after their description. -/
def readCodes (s : Scheme) (bit : BitSource) (position : Nat) :
    Except Stop (Code × Code × Nat) := do
  let literalCount := 257 + (← bit.lowestFirst position 5)
  let distanceCount := 1 + (← bit.lowestFirst (position + 5) 5)
  let tripleCount := 4 + (← bit.lowestFirst (position + 10) 4)
  require (literalCount ≤ s.maxSymbols.1 && distanceCount ≤ s.maxSymbols.2)
  let described := lengthOrder.zip (← readTriples bit (position + 14) tripleCount)
  let lengthCode ←
    orInvalid (s.lengthCode? ((List.range 19).map fun n => (described.lookup n).getD 0))
  let total := literalCount + distanceCount
  let (lengths, position) ←
    readLengths bit lengthCode total (total + 1) (position + 14 + 3 * tripleCount) []
  let literals ← orInvalid (s.literalCode? (lengths.take literalCount))
  let distances ← orInvalid (s.distanceCode? (lengths.drop literalCount))
  return (literals, distances, position)

def readBlock (s : Scheme) (packed : ByteArray) (kind : Nat) (p : Progress) : Step := do
  let bit := BitSource.upwards packed
  let limit := 8 * packed.size + 1
  match kind with
  | 0 => readStored packed p
  | 1 => readSymbols s bit fixedCodes.1 fixedCodes.2 limit p
  | 2 =>
    let (literals, distances, next) ← withOut p.out (readCodes s bit p.bit)
    readSymbols s bit literals distances limit ⟨next, p.out⟩
  | _ => throw (.invalid, p.out)

/-! ## Sequences of blocks -/

/-- Unpacks blocks until the last one. The number bounds how many there can be. -/
def readBlocks (s : Scheme) (packed : ByteArray) : Nat → Progress → Step
  | 0, p => .error (.ended, p.out)
  | fuel + 1, p => do
    let bit := BitSource.upwards packed
    let last ← withOut p.out (bit p.bit)
    let kind ← withOut p.out (bit.lowestFirst (p.bit + 1) 2)
    let p ← readBlock s packed kind ⟨p.bit + 3, p.out⟩
    if last = 1 then return p else readBlocks s packed fuel p

def readAll (s : Scheme) (packed : ByteArray) : Except (Stop × ByteArray) ByteArray :=
  (readBlocks s packed (8 * packed.size + 1) ⟨0, .empty⟩).map (·.out)

end BillOfMaterials.Archive.Deflate
