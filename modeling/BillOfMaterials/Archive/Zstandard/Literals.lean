import BillOfMaterials.Archive.Zstandard.SymbolStream

/-!
# Literals of a block

The bytes that a block does not repeat come first. They are stored as they are, or are one byte many
times, or are packed in a prefix code. A block may use the code of the block before it.
-/
namespace BillOfMaterials.Archive.Zstandard

/-- The literals of a block, the code that later blocks may use, and how many bytes describe them. -/
structure Literals where
  bytes : ByteArray
  code : Option WeightCode
  length : Nat

namespace Literals

/-- A number of some bits from a place in a wide number. -/
def bitsOf (n start width : Nat) : Nat := (n >>> start) % (1 <<< width)

/-- The lengths of the header and of the literals, of which the header says by itself how long it is. -/
def plainHeader (block : ByteArray) (format : Nat) : Option (Nat × Nat) :=
  match format with
  | 1 => (numberAt? block 0 2).map fun n => (2, n / 16)
  | 3 => (numberAt? block 0 3).map fun n => (3, n / 16)
  | _ => (numberAt? block 0 1).map fun n => (1, n / 8)

/-- Literals that are stored as they are, or are one byte many times. -/
def plain? (block : ByteArray) (format limit : Nat) (isRun : Bool) (code : Option WeightCode) :
    Option Literals := do
  let (header, size) ← plainHeader block format
  guard (size ≤ limit)
  if isRun then
    let byte ← numberAt? block header 1
    pure ⟨⟨Array.replicate size byte.toUInt8⟩, code, header + 1⟩
  else
    guard (header + size ≤ block.size)
    pure ⟨block.extract header (header + size), code, header + size⟩

/-- Literals in a prefix code, of their own (`none`) or given. -/
def coded? (block : ByteArray) (format limit : Nat) (code : Option WeightCode) :
    Option Literals := do
  let header ← numberAt? block 0 5
  let (length, width) := if format ≤ 1 then (3, 10) else if format = 2 then (4, 14) else (5, 18)
  let size := bitsOf header 4 width
  let packed := bitsOf header (4 + width) width
  guard (size ≤ limit ∧ length + packed ≤ block.size ∧ (format = 0 ∨ 6 ≤ size))
  let part := block.extract length (length + packed)
  let (code, start) ←
    match code with
    | some code => some (code, 0)
    | none =>
      let (code, start) ← WeightCode.read? part
      let isPaired := decide (format ≠ 0) && WeightCode.paysInPairs size packed
      pure ({ code with isPaired }, start)
  let part := part.extract start part.size
  let bytes ← if format = 0 then SymbolStream.all? code size part else fourStreams? code size part
  pure ⟨bytes, some code, length + packed⟩

/-- The literals at the beginning of a block. There may be as many as `limit` says. -/
def read? (block : ByteArray) (limit : Nat) (code : Option WeightCode) : Option Literals := do
  let head ← numberAt? block 0 1
  let format := head / 4 % 4
  match head % 4 with
  | 0 => plain? block format limit false code
  | 1 => plain? block format limit true code
  | 2 => coded? block format limit none
  | _ => coded? block format limit (some (← code))

end Literals
end BillOfMaterials.Archive.Zstandard
