import BillOfMaterials.Archive.Zstandard.BackwardBits

/-!
# State tables

A symbol may take less than a bit if what it leaves over passes into a state. A table says for each state
which symbol it stands for and which states can follow; how many states a symbol has is in proportion to
how frequent it is.
-/
namespace BillOfMaterials.Archive.Zstandard

structure Cell where
  symbol : Nat
  /-- How many bits are read to find the next state. -/
  width : Nat
  /-- The next state if these bits are zero. -/
  base : Nat
deriving Inhabited

structure StateTable where
  /-- How many bits tell the first state. -/
  width : Nat
  cells : Array Cell

namespace StateTable

/-- The table in which every state stands for one symbol. -/
def constant (symbol : Nat) : StateTable := ⟨0, #[⟨symbol, 0, 0⟩]⟩

/-- Puts symbols at every `step`-th place that lies below `limit`, in a round of `size` places. The
first number bounds the work. -/
def spread (size step limit : Nat) : Nat → Nat → List Nat → Array Nat → Array Nat
  | 0, _, _, places | _, _, [], places => places
  | fuel + 1, place, symbol :: rest, places =>
    let next := (place + step) % size
    if place < limit then spread size step limit fuel next rest (places.setIfInBounds place symbol)
    else spread size step limit fuel next (symbol :: rest) places

/-- The cells for symbols at their places, given how often each symbol has been met, and has its next
states, counted from the number of its states on. -/
def cellsOf (width : Nat) : List Nat → Array Nat → List Cell
  | [], _ => []
  | symbol :: rest, met =>
    let n := met.getD symbol 1
    let bits := width - n.log2
    ⟨symbol, bits, (n <<< bits) - (1 <<< width)⟩ :: cellsOf width rest (met.modify symbol (· + 1))

/-- The table for counts of states, of which there are two to the power `width` in all. A symbol that is
less frequent than that has the count minus one and a state at the end. -/
def ofCounts (width : Nat) (counts : List Int) : StateTable :=
  let size := 1 <<< width
  let rare := (counts.zipIdx.filter fun c => c.1 = -1).map (·.2)
  let limit := size - rare.length
  let frequent := counts.zipIdx.flatMap fun (count, symbol) => List.replicate count.toNat symbol
  let places := spread size (size / 2 + size / 8 + 3) limit (2 * size) 0 frequent
    (Array.replicate size 0)
  let symbols := places.toList.take limit ++ rare.reverse
  ⟨width, (cellsOf width symbols (counts.map Int.natAbs).toArray).toArray⟩

/-! ## Reading the counts -/

/-- The number of `width` bits from a position on; bits after the end are zero. -/
def bitsAt (bytes : ByteArray) (position : Nat) : Nat → Nat
  | 0 => 0
  | width + 1 =>
    ((BitSource.upwards bytes position).toOption.getD 0) + 2 * bitsAt bytes (position + 1) width

/-- How many further symbols have no states, after one that has none, in steps of up to three. -/
def readZeros (bytes : ByteArray) : Nat → Nat → Nat × Nat
  | 0, position => (0, position)
  | fuel + 1, position =>
    let n := bitsAt bytes position 2
    if n = 3 then
      let (more, position) := readZeros bytes fuel (position + 2)
      (more + 3, position)
    else (n, position + 2)

/-- One count, when `remaining` is one more than the states that are left. Small counts take a bit less.
The answer is the count and the position after it. -/
def readCount (bytes : ByteArray) (remaining position : Nat) : Int × Nat :=
  let width := remaining.log2
  let threshold := 1 <<< width
  let small := 2 * threshold - 1 - remaining
  let low := bitsAt bytes position width
  if low < small then ((low : Int) - 1, position + width)
  else
    let full := bitsAt bytes position (width + 1)
    (((if threshold ≤ full then full - small else full) : Int) - 1, position + width + 1)

/-- Reads counts until no states are left, newest first. There may be as many as the first number
says. -/
def readCounts (bytes : ByteArray) : Nat → Nat → Nat → List Int → Option (List Int × Nat)
  | 0, _, _, _ => none
  | room + 1, remaining, position, counts =>
    let (count, position) := readCount bytes remaining position
    let remaining := remaining - count.natAbs
    let counts := count :: counts
    if remaining ≤ 1 then some (counts.reverse, position)
    else if count = 0 then
      let (zeros, position) := readZeros bytes room position
      readCounts bytes (room - zeros) remaining position (List.replicate zeros 0 ++ counts)
    else readCounts bytes room remaining position counts
termination_by room => room

/-- The table that bytes begin with, and how many of them describe it. There are at most `symbols`
symbols, and at most `maxWidth` bits tell a state. -/
def read? (bytes : ByteArray) (symbols maxWidth : Nat) : Option (StateTable × Nat) := do
  let width := bitsAt bytes 0 4 + 5
  guard (width ≤ maxWidth)
  let (counts, position) ← readCounts bytes symbols ((1 <<< width) + 1) 4 []
  let length := (position + 7) / 8
  guard (length ≤ bytes.size)
  pure (ofCounts width counts, length)

/-! ## Walking -/

def start (t : StateTable) (bits : BackwardBits) : Nat × BackwardBits := bits.read t.width

def cell (t : StateTable) (state : Nat) : Cell := t.cells.getD state default

def next (t : StateTable) (state : Nat) (bits : BackwardBits) : Nat × BackwardBits :=
  let c := t.cell state
  let (more, bits) := bits.read c.width
  (c.base + more, bits)

end StateTable
end BillOfMaterials.Archive.Zstandard
