import BillOfMaterials.Archive.Checksum
import BillOfMaterials.Archive.Lzma.Chunk
import BillOfMaterials.Archive.Number

/-!
# Streams of chunks

A stream has a header, blocks of chunks, an index of the blocks, and a footer. All of these but the
data themselves are checked. Streams may follow each other. A block is handed out as a whole.
-/
namespace BillOfMaterials.Archive.Xz

/-- The bytes from a position on, if there are as many. -/
def bytesAt (packed : ByteArray) (position count : Nat) : Except Stop ByteArray :=
  if position + count ≤ packed.size then .ok (packed.extract position (position + count))
  else .error .ended

/-- Asks for a checksum of `count` bytes to stand at a position. -/
def checkSum (packed : ByteArray) (start count position : Nat) : Except Stop Unit := do
  let sum := Checksum.ofBytes (← bytesAt packed start count)
  require ((← orEnded (numberAt? packed position 4)) = sum.toNat)

/-- A number in groups of seven bits, lowest first, and the position after it. -/
def varying (packed : ByteArray) (position : Nat) : Nat → Except Stop (Nat × Nat)
  | 0 => .error .invalid
  | groups + 1 => do
    let byte ← orEnded (numberAt? packed position 1)
    if byte < 0x80 then return (byte, position + 1)
    let (rest, position) ← varying packed (position + 1) groups
    return (byte - 0x80 + 0x80 * rest, position)

def maxGroups : Nat := 9

def signature : List UInt8 := [0xFD, 0x37, 0x7A, 0x58, 0x5A, 0x00]

def endSignature : Nat := 0x5A59

def checkSize (kind : Nat) : Nat := if kind = 0 then 0 else 1 <<< ((kind - 1) / 3 + 2)

/-- The number of the method of packing that a block may have. -/
def chunked : Nat := 0x21

/-- What an index says of a block. -/
structure Record where
  packedSize : Nat
  size : Nat
deriving DecidableEq

/-- The header of a stream: the kind of its checks. -/
def readHeader (packed : ByteArray) (start : Nat) : Except Stop Nat := do
  let bytes ← bytesAt packed start 12
  require ((bytes.extract 0 6).data.toList = signature)
  let flags ← orEnded (numberAt? packed (start + 6) 2)
  checkSum packed (start + 6) 2 (start + 8)
  require (flags % 0x100 = 0 && flags / 0x100 < 0x10)
  return flags / 0x100

/-- How many bytes are missing to a multiple of four. -/
def paddingOf (size : Nat) : Nat := (4 - size % 4) % 4

/-- The header of a block, of which the answer is the length. -/
def readBlockHeader (packed : ByteArray) (start : Nat) : Except Stop Nat := do
  let length := 4 * ((← orEnded (numberAt? packed start 1)) + 1)
  let _ ← bytesAt packed start length
  checkSum packed start (length - 4) (start + length - 4)
  let flags ← orEnded (numberAt? packed (start + 1) 1)
  require (flags % 0x40 = 0)
  let (_, position) ←
    if flags.testBit 6 then varying packed (start + 2) maxGroups else .ok (0, start + 2)
  let (_, position) ← if flags.testBit 7 then varying packed position maxGroups else .ok (0, position)
  let (method, _) ← varying packed position maxGroups
  require (method = chunked)
  return length

/-- A block: what has come out of it, its record, and the position after it. -/
def readBlock (packed : ByteArray) (check start : Nat) :
    Except Stop (ByteArray × Record × Nat) := do
  let length ← readBlockHeader packed start
  let (out, stop) ← Lzma.Chunks.read packed packed.size (.atStart (start + length))
  let size := stop - start
  let next := stop + paddingOf size + check
  let _ ← bytesAt packed stop (next - stop)
  return (out, ⟨size + check, out.size⟩, next)

/-- Reads the records of an index and compares them with those of the blocks. -/
def readRecords (packed : ByteArray) (position : Nat) : List Record → Except Stop Nat
  | [] => .ok position
  | r :: rest => do
    let (packedSize, position) ← varying packed position maxGroups
    let (size, position) ← varying packed position maxGroups
    require (r = ⟨packedSize, size⟩)
    readRecords packed position rest

/-- The index and the footer of a stream. The answer is the position after them. -/
def readEnd (packed : ByteArray) (kind start : Nat) (records : List Record) : Except Stop Nat := do
  let (count, position) ← varying packed (start + 1) maxGroups
  require (count = records.length)
  let position ← readRecords packed position records
  let size := position - start + paddingOf (position - start)
  checkSum packed start size (start + size)
  let footer := start + size + 4
  let _ ← bytesAt packed footer 12
  checkSum packed (footer + 4) 6 footer
  require ((← orEnded (numberAt? packed (footer + 4) 4)) = size / 4)
  require ((← orEnded (numberAt? packed (footer + 8) 2)) = 0x100 * kind)
  require ((← orEnded (numberAt? packed (footer + 10) 2)) = endSignature)
  return footer + 12

/-- Reads streams, outside of them (`none`) or inside one, given the kind of its checks and its blocks,
newest first. The number bounds how many parts there can be. -/
def readStreams (packed : ByteArray) :
    Nat → Option (Nat × List Record) → Nat → ByteArray → Unpacked
  | 0, _, _, out => ⟨out, false⟩
  | fuel + 1, none, position, out =>
    if packed.size ≤ position then ⟨out, true⟩
    else
      match readHeader packed position with
      | .error _ => ⟨out, false⟩
      | .ok kind => readStreams packed fuel (some (kind, [])) (position + 12) out
  | fuel + 1, some (kind, records), position, out =>
    match numberAt? packed position 1 with
    | none => ⟨out, false⟩
    | some 0 =>
      match readEnd packed kind position records.reverse with
      | .error _ => ⟨out, false⟩
      | .ok position => readStreams packed fuel none position out
    | some _ =>
      match readBlock packed (checkSize kind) position with
      | .error _ => ⟨out, false⟩
      | .ok (text, r, position) =>
        readStreams packed fuel (some (kind, r :: records)) position (out ++ text)

def unpack (packed : ByteArray) : Unpacked :=
  readStreams packed (packed.size + 1) none 0 .empty

end BillOfMaterials.Archive.Xz
