import BillOfMaterials.Archive.Bzip2.Block

/-!
# Sorted data

Data packed by sorting are a header, blocks, and an end with a checksum over the checksums of the
blocks. What follows the end does not count.
-/
namespace BillOfMaterials.Archive.Bzip2

/-- The polynomial of the checksums, highest power first. -/
def polynomial : UInt32 := 0x04C11DB7

def divide (remainder : UInt32) : UInt32 :=
  if remainder &&& 0x80000000 = 0 then remainder <<< 1 else (remainder <<< 1) ^^^ polynomial

def addByte (remainder : UInt32) (byte : UInt8) : UInt32 :=
  divide (divide (divide (divide (divide (divide (divide (divide
    (remainder ^^^ (byte.toUInt32 <<< 24)))))))))

/-- The checksum of the text of a block, which begins at a place of the bytes. -/
def checksum (bytes : ByteArray) (start : Nat) : UInt32 :=
  bytes.foldl addByte 0xFFFFFFFF start bytes.size ^^^ 0xFFFFFFFF

/-- The checksum over checksums with one more of them. -/
def combine (sum blockSum : UInt32) : UInt32 := ((sum <<< 1) ||| (sum >>> 31)) ^^^ blockSum

/-- Asks for given bytes. The answer is the position after them. -/
def expect (bit : BitSource) (position : Nat) : List Nat → Except Stop Nat
  | [] => .ok position
  | byte :: rest => do
    require ((← bit.highestFirst position 0 8) = byte)
    expect bit (position + 8) rest

def blockSignature : List Nat := [0x41, 0x59, 0x26, 0x53, 0x59]

def endSignature : List Nat := [0x72, 0x45, 0x38, 0x50, 0x90]

/-- What stands at the beginning of a block or of the end. -/
inductive Section where
  | block (b : Block) (next : Nat)
  | finish (sum : Nat)

def readSection (bit : BitSource) (fuel limit position : Nat) : Except Stop Section := do
  let first ← bit.highestFirst position 0 8
  if first = 0x17 then
    let position ← expect bit (position + 8) endSignature
    return .finish (← bit.highestFirst position 0 32)
  else
    require (first = 0x31)
    let position ← expect bit (position + 8) blockSignature
    let (b, next) ← readBlock bit fuel limit position
    return .block b next

/-- Unpacks blocks until the end. A fault keeps what had come out before it. -/
def readSections (bit : BitSource) (limit : Nat) :
    Nat → Nat → UInt32 → ByteArray → Except (Stop × ByteArray) ByteArray
  | 0, _, _, out => .error (.ended, out)
  | fuel + 1, position, sum, out =>
    match readSection bit fuel limit position with
    | .error stop => .error (stop, out)
    | .ok (.finish claimed) => if sum.toNat = claimed then .ok out else .error (.invalid, out)
    | .ok (.block b next) =>
      match fillRuns out 0 0 b.packedText with
      | .error longer => .error (.invalid, longer)
      | .ok longer =>
        let blockSum := checksum longer out.size
        if blockSum.toNat = b.checksum then
          readSections bit limit fuel next (combine sum blockSum) longer
        else .error (.invalid, longer)

/-- The header: the limit of a block, and the position after it. -/
def readHeader (bit : BitSource) : Except Stop (Nat × Nat) := do
  let position ← expect bit 0 [0x42, 0x5A, 0x68]
  let level ← bit.highestFirst position 0 8
  require (0x31 ≤ level && level ≤ 0x39)
  return (100000 * (level - 0x30), position + 8)

/-- Unpacks data. Data that end too early hand out everything; a breach of the rules loses the portion
that was to be filled. -/
def unpack (packed : ByteArray) : Unpacked :=
  let bit := BitSource.downwards packed
  match readHeader bit with
  | .error _ => ⟨.empty, false⟩
  | .ok (limit, position) =>
    match readSections bit limit (8 * packed.size + 1) position 0 .empty with
    | .ok out => ⟨out, true⟩
    | .error (.ended, out) => ⟨out, false⟩
    | .error (.invalid, out) => ⟨handedOut 8192 out, false⟩

end BillOfMaterials.Archive.Bzip2
