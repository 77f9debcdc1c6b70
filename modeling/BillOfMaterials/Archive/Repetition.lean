/-!
# Repetition

Packing pays because the same comes again: a part that came before is told by its distance and its
length, and a symbol by how long ago it was last met.
-/
namespace BillOfMaterials.Archive

/-- Repeats `length` bytes from `distance` bytes back. The part may run into itself; before all data
there are zeros. -/
def repeatPart (distance : Nat) : Nat → ByteArray → ByteArray
  | 0, out => out
  | length + 1, out =>
    let place := out.size - distance
    let byte := if h : distance ≤ out.size ∧ place < out.size then out[place] else 0
    repeatPart distance length (out.push byte)

def moveToFront {α : Type} (place : Nat) (members : List α) : List α :=
  (members[place]?).toList ++ members.eraseIdx place

end BillOfMaterials.Archive
