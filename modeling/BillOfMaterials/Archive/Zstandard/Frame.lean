import BillOfMaterials.Archive.Zstandard.Digest
import BillOfMaterials.Archive.Zstandard.Sequences

/-!
# Frames

A frame is a header, blocks, and possibly a digest. A short frame that is there as a whole is unpacked in
one go. Any other is unpacked block by block, and what has come out is handed out whenever a portion of
8192 bytes overflows.
-/
namespace BillOfMaterials.Archive.Zstandard

def signature : Nat := 0xFD2FB528

/-- How much is handed out at once. -/
def portion : Nat := 8192

def maxBlock : Nat := 128 * 1024

/-- The most bytes that must be kept for repetitions. -/
def maxWindow : Nat := 0x8000001

structure FrameHeader where
  /-- How many bytes may be repeated. -/
  window : Nat
  /-- How long the text is, if the header says so. -/
  size : Option Nat
  hasDigest : Bool
  /-- The position after the header. -/
  next : Nat

namespace FrameHeader

/-- The most bytes of a block in the frame. -/
def blockLimit (h : FrameHeader) : Nat := min h.window maxBlock

/-- The window that a byte describes: a power of two and some eighths of it. -/
def windowOf? (byte : Nat) : Option Nat :=
  let base := 1 <<< (byte / 8 + 10)
  if byte / 8 + 10 ≤ 31 then some (base + base / 8 * (byte % 8)) else none

/-- The header after the signature at a position. The frame must not depend on a dictionary. -/
def read? (packed : ByteArray) (position : Nat) : Option FrameHeader := do
  let marks ← numberAt? packed (position + 4) 1
  guard (!marks.testBit 3)
  let isSingle := marks.testBit 5
  let position := position + 5
  let window ← if isSingle then some 0 else (numberAt? packed position 1).bind windowOf?
  let position := if isSingle then position else position + 1
  let dictionaryWidth := if marks % 4 = 3 then 4 else marks % 4
  guard ((← numberAt? packed position dictionaryWidth) = 0)
  let position := position + dictionaryWidth
  let width := if marks / 64 = 0 then (if isSingle then 1 else 0) else 1 <<< (marks / 64)
  let n ← numberAt? packed position width
  let size := if width = 0 then none else some (if width = 2 then n + 256 else n)
  pure
    { window := if isSingle then size.getD 0 else window
      size, hasDigest := marks.testBit 2, next := position + width }

end FrameHeader

/-- The header of a block: whether it is the last one, its kind and its size. -/
structure BlockHeader where
  isLast : Bool
  kind : Nat
  size : Nat

def BlockHeader.read? (packed : ByteArray) (position : Nat) : Option BlockHeader :=
  (numberAt? packed position 3).map fun n => ⟨n % 2 = 1, n / 2 % 4, n / 8⟩

/-- How many bytes follow the header of a block. -/
def BlockHeader.packedSize (h : BlockHeader) : Nat := if h.kind = 1 then 1 else h.size

/-- Whether all blocks and the digest of a frame are there, from a position on. -/
def isThere (packed : ByteArray) (hasDigest : Bool) : Nat → Nat → Bool
  | 0, _ => false
  | fuel + 1, position =>
    match BlockHeader.read? packed position with
    | none => false
    | some h =>
      let next := position + 3 + h.packedSize
      if h.kind = 3 ∨ packed.size < next then false
      else if h.isLast then next + (if hasDigest then 4 else 0) ≤ packed.size
      else isThere packed hasDigest fuel next

/-- Where unpacking a frame stands. -/
structure FrameProgress where
  position : Nat
  memory : Memory := {}
  out : ByteArray
  /-- Where the text of the frame begins. -/
  origin : Nat
  room : Room
  /-- How much of all that has come out has been handed out. -/
  settled : Nat

namespace FrameProgress

/-- A fault, with what has been handed out by then. -/
def fault {α : Type} (p : FrameProgress) : Except ByteArray α := .error (p.out.extract 0 p.settled)

/-- Hands out all that has come out if it overflows a portion. -/
def settle (p : FrameProgress) : FrameProgress :=
  { p with settled := if p.settled + portion < p.out.size then p.out.size else p.settled }

/-- Unpacks a block that is there as a whole. -/
def block? (p : FrameProgress) (packed : ByteArray) (h : FrameHeader) (b : BlockHeader) :
    Option FrameProgress := do
  let start := p.position + 3
  let stop := start + b.packedSize
  let (out, memory) ←
    match b.kind with
    | 0 => pure (p.out ++ packed.extract start stop, p.memory)
    | 1 =>
      let byte ← numberAt? packed start 1
      pure (p.out ++ ⟨Array.replicate b.size byte.toUInt8⟩, p.memory)
    | 2 =>
      guard (b.size ≤ h.blockLimit)
      Sequences.run? (packed.extract start stop) p.room h.blockLimit p.memory p.out
    | _ => none
  let size := out.size - p.out.size
  guard (size ≤ p.room.free p.out ∧ (b.kind = 2 → size ≤ h.blockLimit))
  pure { p with position := stop, out, memory, room := p.room.afterBlock h.blockLimit out }

def hasSaidSize (p : FrameProgress) (h : FrameHeader) : Bool :=
  h.size.all (· = p.out.size - p.origin)

def finish (p : FrameProgress) (packed : ByteArray) (h : FrameHeader) :
    Except ByteArray (ByteArray × Nat) :=
  if h.hasDigest then
    match numberAt? packed p.position 4 with
    | none => .error p.out
    | some claimed =>
      let digest := Digest.ofBytes (p.out.extract p.origin p.out.size)
      if digest.toNat % 0x100000000 = claimed then .ok (p.out, p.position + 4) else p.fault
  else .ok (p.out, p.position)

/-- Unpacks the blocks of a frame that is there as a whole. -/
def blocksAtOnce (packed : ByteArray) (h : FrameHeader) :
    Nat → FrameProgress → Except ByteArray (ByteArray × Nat)
  | 0, p => p.fault
  | fuel + 1, p =>
    match BlockHeader.read? packed p.position with
    | none => p.fault
    | some b =>
      match p.block? packed h b with
      | none => p.fault
      | some next =>
        if !b.isLast then blocksAtOnce packed h fuel next
        else if next.hasSaidSize h then next.finish packed h
        else p.fault

/-- Unpacks the blocks of a frame one by one. An empty last block ends the frame as it is. -/
def blocks (packed : ByteArray) (h : FrameHeader) :
    Nat → FrameProgress → Except ByteArray (ByteArray × Nat)
  | 0, p => p.fault
  | fuel + 1, p =>
    match BlockHeader.read? packed p.position with
    | none => .error p.out
    | some b =>
      let start := p.position + 3
      if b.kind = 3 ∨ h.blockLimit < b.packedSize then p.fault
      else if b.packedSize = 0 then
        let next := { p with position := start }
        if b.isLast then next.finish packed h else blocks packed h fuel next
      else if packed.size < start + b.packedSize then
        if b.kind ≠ 0 then .error p.out
        else if p.room.free p.out < packed.size - start then p.fault
        else .error (p.out ++ packed.extract start packed.size)
      else
        match p.block? packed h b with
        | none => p.fault
        | some next =>
          if h.blockLimit < next.out.size - p.out.size then p.fault
          else if !b.isLast then blocks packed h fuel next.settle
          else if next.hasSaidSize h then next.settle.finish packed h
          else p.fault

end FrameProgress

/-- The room that a text takes which is unpacked block by block: there are two blocks besides the window,
unless the text is known to be shorter. -/
def FrameHeader.roomSize (h : FrameHeader) : Nat :=
  let size := max 1024 h.window + 2 * h.blockLimit + 64
  h.size.elim size (min size)

/-- Unpacks the frame at a position: all that has come out, and the position after the frame. A fault
keeps what has been handed out. -/
def readFrame (packed : ByteArray) (position : Nat) (out : ByteArray) :
    Except ByteArray (ByteArray × Nat) :=
  match FrameHeader.read? packed position with
  | none => .error out
  | some h =>
    let start (size : Nat) : FrameProgress :=
      { position := h.next, out, origin := out.size, settled := out.size
        room := .start size (h.size.all (size < ·)) out }
    let fuel := packed.size + 1
    if h.size.any (· ≤ portion) ∧ isThere packed h.hasDigest fuel h.next then
      FrameProgress.blocksAtOnce packed h fuel (start portion)
    else if maxWindow < h.window then .error out
    else FrameProgress.blocks packed h fuel (start h.roomSize)

end BillOfMaterials.Archive.Zstandard
