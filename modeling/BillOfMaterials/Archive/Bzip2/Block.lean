import BillOfMaterials.Archive.Bzip2.Scrambling
import BillOfMaterials.Archive.PrefixCode
import BillOfMaterials.Archive.Repetition

/-!
# Sorted blocks

A block of text is kept as the last column of its sorted rotations, in which equal bytes gather. The
column is written by how recently each byte was seen, runs of the latest byte by their lengths, and all
that in prefix codes, of which a new one may be chosen every fifty symbols.
-/
namespace BillOfMaterials.Archive.Bzip2

structure Block where
  /-- The checksum that is claimed for the text. -/
  checksum : Nat
  isScrambled : Bool
  /-- The row of the text among its sorted rotations. -/
  origin : Nat
  /-- The last column of the sorted rotations. -/
  column : ByteArray

/-! ## Reading -/

def readMany {α : Type} (read : Nat → Except Stop (α × Nat)) (position : Nat) :
    Nat → Except Stop (List α × Nat)
  | 0 => .ok ([], position)
  | count + 1 => do
    let (first, position) ← read position
    let (rest, position) ← readMany read position count
    return (first :: rest, position)

/-- The places of the bits that are set among sixteen. -/
def readSet (bit : BitSource) (position : Nat) : Except Stop (List Nat × Nat) := do
  let n ← bit.highestFirst position 0 16
  return ((List.range 16).filter fun i => n.testBit (15 - i), position + 16)

/-- The bytes that occur in a block, by a set of sets of sixteen. -/
def readAlphabet (bit : BitSource) (position : Nat) : Except Stop (List UInt8 × Nat) := do
  let (sets, position) ← readSet bit position
  let (members, position) ← readMany (readSet bit) position sets.length
  let bytes := (sets.zip members).flatMap fun (high, lows) =>
    lows.map fun low => (16 * high + low).toUInt8
  require (!bytes.isEmpty)
  return (bytes, position)

/-- The number of bits that are set before the next one that is not; it must be less than `limit`. -/
def readUnary (bit : BitSource) (position : Nat) : Nat → Except Stop (Nat × Nat)
  | 0 => .error .invalid
  | limit + 1 => do
    if (← bit position) = 0 then return (0, position + 1)
    let (n, position) ← readUnary bit (position + 1) limit
    return (n + 1, position)

/-- The members at places in a list in which each of them moves to the front. -/
def membersAt {α : Type} (members : List α) : List Nat → List α
  | [] => []
  | place :: places =>
    let members := moveToFront place members
    members.head?.toList ++ membersAt members places

/-- The length of a word after some changes by one. The first number bounds the work. -/
def readLength (bit : BitSource) : Nat → Nat → Nat → Except Stop (Nat × Nat)
  | 0, _, _ => .error .ended
  | fuel + 1, position, length => do
    require (1 ≤ length && length ≤ 20)
    if (← bit position) = 0 then return (length, position + 1)
    let down ← bit (position + 1)
    readLength bit fuel (position + 2) (if down = 1 then length - 1 else length + 1)

/-- The lengths of words, each told by its change from the one before. -/
def readLengths (bit : BitSource) (fuel : Nat) (length position : Nat) :
    Nat → Except Stop (List Nat × Nat)
  | 0 => .ok ([], position)
  | count + 1 => do
    let (length, position) ← readLength bit fuel position length
    let (lengths, position) ← readLengths bit fuel length position count
    return (length :: lengths, position)

def readCode (bit : BitSource) (fuel size : Nat) (position : Nat) :
    Except Stop (PrefixCode × Nat) := do
  let first ← bit.highestFirst position 0 5
  let (lengths, position) ← readLengths bit fuel first (position + 5) size
  return (PrefixCode.ofLengths 20 lengths, position)

/-- How many symbols are read with one code. -/
def groupSize : Nat := 50

/-- The most groups that count; further ones are read and forgotten. -/
def maxGroups : Nat := 18002

structure Codes where
  codes : Array PrefixCode
  choice : Array Nat

def readCodes (bit : BitSource) (fuel size : Nat) (position : Nat) :
    Except Stop (Codes × Nat) := do
  let count ← bit.highestFirst position 0 3
  require (2 ≤ count && count ≤ 6)
  let groups ← bit.highestFirst (position + 3) 0 15
  require (1 ≤ groups)
  let (places, position) ← readMany (fun p => readUnary bit p count) (position + 18) groups
  let choice := membersAt (List.range count) (places.take maxGroups)
  let (codes, position) ← readMany (readCode bit fuel size) position count
  return (⟨codes.toArray, choice.toArray⟩, position)

/-- The symbol at a position, if `count` symbols stand before it. -/
def Codes.read (c : Codes) (bit : BitSource) (count position : Nat) : Except Stop (Nat × Nat) := do
  let choice ← orInvalid c.choice[count / groupSize]?
  let code ← orInvalid c.codes[choice]?
  code.read bit position

/-! ## The column -/

/-- Where reading a column stands. -/
structure Progress where
  position : Nat
  /-- How many symbols have been read. -/
  count : Nat
  /-- The bytes that may occur, the latest first. -/
  recent : List UInt8
  /-- How often the latest byte is still to be put, and how much the next digit of this number counts. -/
  run : Nat
  unit : Nat
  column : ByteArray

def putRun (byte : UInt8) : Nat → ByteArray → ByteArray
  | 0, column => column
  | count + 1, column => putRun byte count (column.push byte)

/-- Puts the latest byte as often as the run says; the column must not grow beyond `limit`. -/
def Progress.endRun (p : Progress) (limit : Nat) : Except Stop Progress := do
  require (p.column.size + p.run ≤ limit)
  return { p with run := 0, unit := 1, column := putRun (p.recent.headD 0) p.run p.column }

def maxUnit : Nat := 2 * 1024 * 1024

/-- Reads a column up to the last symbol. Symbols zero and one are digits of a run; all others say how
recently a byte was seen. The number bounds how many symbols there can be. -/
def readColumn (bit : BitSource) (codes : Codes) (last limit : Nat) :
    Nat → Progress → Except Stop Progress
  | 0, _ => .error .invalid
  | fuel + 1, p => do
    let (symbol, position) ← codes.read bit p.count p.position
    let p := { p with position, count := p.count + 1 }
    if symbol ≤ 1 then
      require (p.unit < maxUnit)
      readColumn bit codes last limit fuel
        { p with run := p.run + p.unit * (symbol + 1), unit := 2 * p.unit }
    else do
      let p ← p.endRun limit
      if symbol = last then return p
      require (p.column.size < limit)
      let recent := moveToFront (symbol - 1) p.recent
      readColumn bit codes last limit fuel
        { p with recent, column := p.column.push (recent.headD 0) }

def readBlock (bit : BitSource) (fuel limit position : Nat) : Except Stop (Block × Nat) := do
  let checksum ← bit.highestFirst position 0 32
  let scrambled ← bit (position + 32)
  let origin ← bit.highestFirst (position + 33) 0 24
  require (origin ≤ limit + 10)
  let (alphabet, position) ← readAlphabet bit (position + 57)
  let (codes, position) ← readCodes bit fuel (alphabet.length + 2) position
  let p ← readColumn bit codes (alphabet.length + 1) limit (groupSize * codes.choice.size + 1)
    ⟨position, 0, alphabet, 0, 1, .empty⟩
  require (origin < p.column.size)
  return (⟨checksum, scrambled = 1, origin, p.column⟩, p.position)

/-! ## The text -/

namespace Block

/-- For each place in the sorted column, the place of that byte in the last column. -/
def links (column : ByteArray) : Array Nat :=
  let counts :=
    column.foldl (fun (cs : Array Nat) b => cs.modify b.toNat (· + 1)) (Array.replicate 256 0)
  let starts := (counts.foldl (fun (ss, n) c => (ss.push n, n + c)) ((#[] : Array Nat), 0)).1
  ((column.foldl (fun (s : Array Nat × Array Nat × Nat) b =>
      let place := s.2.1.getD b.toNat 0
      (s.1.setIfInBounds place s.2.2, s.2.1.modify b.toNat (· + 1), s.2.2 + 1))
    (Array.replicate column.size 0, starts, 0))).1

/-- The bytes that are met by following links. -/
def follow (column : ByteArray) (links : Array Nat) : Nat → Nat → List UInt8 → List UInt8
  | 0, _, text => text.reverse
  | count + 1, place, text =>
    follow column links count (links.getD place 0)
      ((if h : place < column.size then column[place] else 0) :: text)

/-- The text of a block, in which four equal bytes have a number after them that says how many more
there are. One byte follows that does not belong to it. -/
def packedText (b : Block) : List UInt8 :=
  let links := links b.column
  let text := follow b.column links (b.column.size + 1) (links.getD b.origin 0) []
  if b.isScrambled then unscramble 0 0 text else text

end Block

/-- Adds a text to `out`, with its runs filled up. The arguments before the text are the last byte and
how often it was just seen. The last byte does not belong to the text; it is a fault if the number of a run
should stand there, and the run is filled up by it nevertheless. -/
def fillRuns (out : ByteArray) (last : UInt8) (seen : Nat) : List UInt8 → Except ByteArray ByteArray
  | [] => .ok out
  | byte :: rest =>
    if seen = 4 then
      let out := putRun last byte.toNat out
      if rest.isEmpty then .error out else fillRuns out last 0 rest
    else if rest.isEmpty then .ok out
    else fillRuns (out.push byte) byte (if seen ≠ 0 ∧ byte = last then seen + 1 else 1) rest

end BillOfMaterials.Archive.Bzip2
