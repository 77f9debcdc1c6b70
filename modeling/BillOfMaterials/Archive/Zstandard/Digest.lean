/-!
# Digests

The digest of 64 bits of the text of a frame. Four lanes take eight bytes each in turn; what is left over
is mixed in at the end.
-/
namespace BillOfMaterials.Archive.Zstandard.Digest

def prime1 : UInt64 := 0x9E3779B185EBCA87
def prime2 : UInt64 := 0xC2B2AE3D27D4EB4F
def prime3 : UInt64 := 0x165667B19E3779F9
def prime4 : UInt64 := 0x85EBCA77C2B2AE63
def prime5 : UInt64 := 0x27D4EB2F165667C5

/-- Moves bits up; those that leave at the top enter at the bottom. -/
def rotate (n count : UInt64) : UInt64 := (n <<< count) ||| (n >>> (64 - count))

/-- The number of `width` bytes at a place, lowest byte first; missing bytes are zero. -/
def wordAt (bytes : ByteArray) (place : Nat) : Nat → UInt64
  | 0 => 0
  | width + 1 =>
    (if h : place < bytes.size then bytes[place].toUInt64 else 0) |||
      (wordAt bytes (place + 1) width <<< 8)

/-- A lane after eight more bytes. -/
def lane (n word : UInt64) : UInt64 := rotate (n + word * prime2) 31 * prime1

structure Lanes where
  a : UInt64
  b : UInt64
  c : UInt64
  d : UInt64

/-- The lanes after `count` more rounds, the first of them at a place. -/
def Lanes.run (bytes : ByteArray) (place : Nat) : Nat → Lanes → Lanes
  | 0, l => l
  | count + 1, l =>
    Lanes.run bytes (place + 32) count
      ⟨lane l.a (wordAt bytes place 8), lane l.b (wordAt bytes (place + 8) 8),
        lane l.c (wordAt bytes (place + 16) 8), lane l.d (wordAt bytes (place + 24) 8)⟩

def join (digest n : UInt64) : UInt64 := (digest ^^^ lane 0 n) * prime1 + prime4

/-- One number for four lanes. -/
def Lanes.join (l : Lanes) : UInt64 :=
  let sum := rotate l.a 1 + rotate l.b 7 + rotate l.c 12 + rotate l.d 18
  [l.a, l.b, l.c, l.d].foldl Digest.join sum

/-- Mixes in what is left from a place on, of `count` bytes. -/
def rest (bytes : ByteArray) (digest : UInt64) (place count : Nat) : UInt64 :=
  if 8 ≤ count then
    rest bytes (rotate (digest ^^^ lane 0 (wordAt bytes place 8)) 27 * prime1 + prime4) (place + 8)
      (count - 8)
  else if 4 ≤ count then
    rest bytes (rotate (digest ^^^ (wordAt bytes place 4 * prime1)) 23 * prime2 + prime3) (place + 4)
      (count - 4)
  else if 1 ≤ count then
    rest bytes (rotate (digest ^^^ (wordAt bytes place 1 * prime5)) 11 * prime1) (place + 1)
      (count - 1)
  else digest
termination_by count
decreasing_by all_goals omega

/-- Spreads every bit over the whole digest. -/
def settle (digest : UInt64) : UInt64 :=
  let digest := (digest ^^^ (digest >>> 33)) * prime2
  let digest := (digest ^^^ (digest >>> 29)) * prime3
  digest ^^^ (digest >>> 32)

def ofBytes (bytes : ByteArray) : UInt64 :=
  let rounds := bytes.size / 32
  let begun :=
    if rounds = 0 then prime5
    else (Lanes.run bytes 0 rounds ⟨prime1 + prime2, prime2, 0, 0 - prime1⟩).join
  settle (rest bytes (begun + bytes.size.toUInt64) (32 * rounds) (bytes.size % 32))

end BillOfMaterials.Archive.Zstandard.Digest
