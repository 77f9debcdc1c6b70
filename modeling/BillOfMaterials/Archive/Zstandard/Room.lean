import BillOfMaterials.Archive.Repetition

/-!
# Room for a text

The text of a frame is kept in a room of limited size. When the next block might not fit, the text goes
on at the beginning of the room, over what stands there: a new round begins. A part can be repeated from
the present round and from the one before it. Where that one has been written over, the part is what
stands there now.
-/
namespace BillOfMaterials.Archive.Zstandard

structure Room where
  size : Nat
  /-- Whether the text may be longer than the room. -/
  isShort : Bool
  /-- Where in the text the present round begins. -/
  round : Nat
  /-- Where in the text the round before it begins. -/
  before : Nat

namespace Room

/-- A room in which a text begins after all that has come out. -/
def start (size : Nat) (isShort : Bool) (out : ByteArray) : Room :=
  ⟨size, isShort, out.size, out.size⟩

/-- How many bytes of the present round there are. -/
def used (r : Room) (out : ByteArray) : Nat := out.size - r.round

/-- How many bytes can follow in the present round. -/
def free (r : Room) (out : ByteArray) : Nat := r.size - r.used out

/-- The room after a block. A new round begins if the room is short and a block of `limit` bytes would
not fit. -/
def afterBlock (r : Room) (limit : Nat) (out : ByteArray) : Room :=
  if r.isShort ∧ r.size < r.used out + limit then { r with round := out.size, before := r.round }
  else r

def repeat? (r : Room) (distance length : Nat) (out : ByteArray) : Option ByteArray := do
  guard (0 < distance ∧ distance ≤ out.size - r.before)
  let used := r.used out
  if distance ≤ used then pure (repeatPart distance length out)
  else
    let place := out.size - distance - r.before
    let changed := min length (min used (r.round - r.before) - place)
    let out := out ++ out.extract (r.round + place) (r.round + place + changed)
    pure (repeatPart distance (length - changed) out)

end Room
end BillOfMaterials.Archive.Zstandard
