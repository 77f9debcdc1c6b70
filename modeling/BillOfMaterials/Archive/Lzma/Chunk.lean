import BillOfMaterials.Archive.Lzma.Decoder

/-!
# Chunks

Long data are cut into chunks, each stored as it is or range-coded. The first byte of a chunk says which,
and how much of the state of decoding it begins anew. The byte zero ends the chunks.
-/
namespace BillOfMaterials.Archive.Lzma

/-- Where reading chunks stands. -/
structure Chunks where
  position : Nat
  decoder : Decoder
  likelihoods : Array UInt16

namespace Chunks

def atStart (position : Nat) : Chunks :=
  let properties : Properties := ⟨0, 0, 0⟩
  ⟨position, .fresh properties none, evenLikelihoods properties⟩

def byteAt (packed : ByteArray) (position : Nat) : Except Stop UInt8 :=
  if h : position < packed.size then .ok packed[position] else .error .ended

/-- The number of two bytes at a position, highest byte first, and one more. -/
def sizeAt (packed : ByteArray) (position : Nat) : Except Stop Nat := do
  let high ← byteAt packed position
  let low ← byteAt packed (position + 1)
  return 0x100 * high.toNat + low.toNat + 1

def forget (c : Chunks) : Chunks :=
  { c with decoder := { c.decoder with origin := c.decoder.out.size } }

def reset (properties : Properties) (c : Chunks) : Chunks :=
  { c with
    decoder := { c.decoder with properties, kinds := 0, recent := [0, 0, 0, 0] }
    likelihoods := evenLikelihoods properties }

def stored (packed : ByteArray) (c : Chunks) : Except Stop Chunks := do
  let size ← sizeAt packed (c.position + 1)
  let start := c.position + 3
  if packed.size < start + size then throw .ended
  let out := c.decoder.out ++ packed.extract start (start + size)
  return { c with position := start + size, decoder := { c.decoder with out } }

/-- The properties at a position. Literals may have four bits of context at most. -/
def propertiesAt (packed : ByteArray) (position : Nat) : Except Stop Properties := do
  let p ← orInvalid (Properties.ofNumber? (← byteAt packed position).toNat)
  require (p.literalContext + p.literalPosition ≤ 4)
  return p

/-- What a range-coded chunk begins anew, and where its packed number stands. -/
def prepare (packed : ByteArray) (kind : Nat) (c : Chunks) : Except Stop Chunks := do
  let c := { c with position := c.position + 5 }
  match kind with
  | 0 => return c
  | 1 => return c.reset c.decoder.properties
  | kind =>
    let c := if kind = 3 then c.forget else c
    let properties ← propertiesAt packed c.position
    return { c.reset properties with position := c.position + 1 }

/-- A range-coded chunk. Its packed number may end before the chunk does; then the next chunk begins
there. -/
def coded (packed : ByteArray) (status : Nat) (c : Chunks) : Except Stop Chunks := do
  let size := 0x10000 * (status % 0x20) + (← sizeAt packed (c.position + 1))
  let packedSize ← sizeAt packed (c.position + 3)
  let ⟨position, decoder, likelihoods⟩ ← prepare packed (status / 0x20 % 4) c
  let target := decoder.out.size + size
  let range : Range := ⟨packed, position, position + packedSize, 0, 0, likelihoods⟩
  let step : Step Unit := do
    Range.start
    Decoder.symbols target (size + 1)
  let (answer, decoder, range) := Decoder.run step decoder range
  answer
  require (decoder.out.size = target)
  return ⟨range.position, decoder, range.likelihoods⟩

/-- Reads chunks until they end. The answer is what has come out and the position after them. The number
bounds how many chunks there can be. -/
def read (packed : ByteArray) : Nat → Chunks → Except Stop (ByteArray × Nat)
  | 0, _ => .error .ended
  | fuel + 1, c => do
    match (← byteAt packed c.position).toNat with
    | 0 => return (c.decoder.out, c.position + 1)
    | 1 => read packed fuel (← stored packed c.forget)
    | 2 => read packed fuel (← stored packed c)
    | status =>
      require (0x80 ≤ status)
      read packed fuel (← coded packed status c)

end Chunks
end BillOfMaterials.Archive.Lzma
