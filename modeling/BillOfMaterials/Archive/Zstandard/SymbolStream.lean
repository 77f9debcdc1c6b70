import BillOfMaterials.Archive.Zstandard.WeightCode

/-!
# Streams of symbols

Symbols of a prefix code stand in one stream or in four, each read from its end. A stream that is read
by itself has to be used up by its symbols. Four long streams are read side by side instead, in rounds,
and then it is enough that none of them has gone a byte beyond its beginning when the rounds end.
-/
namespace BillOfMaterials.Archive.Zstandard

/-- What is left of a stream, and the symbols read from it. -/
structure SymbolStream where
  bits : BackwardBits
  symbols : ByteArray := .empty

namespace SymbolStream

/-- Reads once: one symbol, or two. -/
def step (c : WeightCode) (s : SymbolStream) : SymbolStream :=
  let look := c.lookAt s.bits
  let symbols := s.symbols.push look.first
  ⟨s.bits.skip look.length, look.second.elim symbols symbols.push⟩

/-- Reads `count` symbols. Where two are read and one is wanted, the bits of both are passed over, as
far as there are any. -/
def read (c : WeightCode) : Nat → SymbolStream → SymbolStream
  | 0, s => s
  | count + 1, s =>
    let look := c.lookAt s.bits
    let symbols := s.symbols.push look.first
    match look.second, count with
    | none, count => read c count ⟨s.bits.skip look.length, symbols⟩
    | some _, 0 => ⟨s.bits.skipHeld look.length, symbols⟩
    | some second, count + 1 => read c count ⟨s.bits.skip look.length, symbols.push second⟩

/-- The `count` symbols of a stream by itself. -/
def all? (c : WeightCode) (count : Nat) (bytes : ByteArray) : Option ByteArray := do
  let s := read c count { bits := ← BackwardBits.ofBytes? bytes }
  guard (s.bits.left = 0)
  pure s.symbols

end SymbolStream

/-! ## Four streams -/

/-- One of four streams: where its bytes begin and end, and how many symbols it has. -/
structure Lane where
  start : Nat
  stop : Nat
  count : Nat

namespace Lane

/-- The lanes for `count` symbols. The lengths of the first three stand before them, and each but the
last one has a quarter of the symbols. -/
def four? (count : Nat) (bytes : ByteArray) : Option (List Lane) := do
  guard (10 ≤ bytes.size)
  let a := 6 + (← numberAt? bytes 0 2)
  let b := a + (← numberAt? bytes 2 2)
  let d := b + (← numberAt? bytes 4 2)
  guard (d ≤ bytes.size)
  let quarter := (count + 3) / 4
  guard (3 * quarter ≤ count)
  pure [⟨6, a, quarter⟩, ⟨a, b, quarter⟩, ⟨b, d, quarter⟩, ⟨d, bytes.size, count - 3 * quarter⟩]

/-- A lane that is long enough to be read beside others. -/
def isLong (l : Lane) : Bool := l.start + 8 ≤ l.stop ∧ 0 < l.count

end Lane

/-- A lane on the way. Eight bytes are held at once. -/
structure Runner extends SymbolStream where
  lane : Lane
  /-- The place of the first byte that is held. -/
  place : Nat

namespace Runner

/-- A lane at its end. -/
def ofLane (bytes : ByteArray) (lane : Lane) : Runner :=
  { bits := .before bytes lane.stop, lane, place := lane.stop - 8 }

/-- A round: reads five times and holds other bytes. -/
def round (c : WeightCode) (r : Runner) : Runner :=
  let stream := Nat.repeat (SymbolStream.step c) 5 r.toSymbolStream
  { r with toSymbolStream := stream, place := (stream.bits.left.toNat + 7) / 8 - 8 }

/-- How many rounds are possible for sure. A round takes seven bytes at most, and gives five symbols or,
in pairs, ten at most. -/
def roundsAhead (c : WeightCode) (r : Runner) : Nat :=
  min (r.place / 7) ((r.lane.count - r.symbols.size) / if c.isPaired then 10 else 5)

/-- Whether every runner is behind the next one. -/
def inOrder : List Runner → Bool
  | r :: next :: rest => r.place ≤ next.place && inOrder (next :: rest)
  | _ => true

/-- Rounds until the last runner has `goal` symbols, but not more than the number says. -/
def roundsUpTo (c : WeightCode) (goal : Nat) : Nat → List Runner → List Runner
  | 0, runners => runners
  | n + 1, runners =>
    if runners.getLast?.all (·.symbols.size < goal) then
      roundsUpTo c goal n (runners.map (round c))
    else runners

/-- Rounds as long as they are possible for sure and the runners are in order, which is looked at again
when the last runner has as many symbols as these rounds give at least. -/
def rounds (c : WeightCode) : Nat → List Runner → List Runner
  | 0, runners => runners
  | fuel + 1, runners =>
    let ahead := (runners.map (roundsAhead c)).min?.getD 0
    if 0 < ahead ∧ inOrder runners then
      let goal := (runners.getLast?.elim 0 (·.symbols.size)) + 5 * ahead
      rounds c fuel (roundsUpTo c goal ahead runners)
    else runners

/-- The symbols of a lane after the rounds: those that are missing are read without looking at the end. -/
def finish? (c : WeightCode) (r : Runner) : Option ByteArray := do
  guard (r.lane.start ≤ r.place + 8)
  pure (r.toSymbolStream.read c (r.lane.count - r.symbols.size)).symbols

end Runner

def fourStreams? (c : WeightCode) (count : Nat) (bytes : ByteArray) : Option ByteArray := do
  let lanes ← Lane.four? count bytes
  let parts ←
    if c.width ≤ 11 ∧ lanes.all Lane.isLong then
      (Runner.rounds c count (lanes.map (Runner.ofLane bytes))).mapM (Runner.finish? c)
    else
      lanes.mapM fun l => SymbolStream.all? c l.count (bytes.extract l.start l.stop)
  pure (parts.foldl (· ++ ·) .empty)

end BillOfMaterials.Archive.Zstandard
