import BillOfMaterials.Archive.PrefixCode

/-!
# Loose codes

A loose code is made from lengths that need not fit together. Words are entered in the order of their
symbols, each into a table by its first bits and, if it is longer, into a tree below. A word that meets
a shorter one there is refused; everything else that it meets it replaces. Bits that lead to no word
are a fault.
-/
namespace BillOfMaterials.Archive.Deflate

/-- What the bits after those of the table lead to. -/
inductive WordTree where
  | nothing
  | symbol (n : Nat)
  | fork (zero one : WordTree)

namespace WordTree

def enter (symbol : Nat) : List Bool → WordTree → Option WordTree
  | [], _ => some (.symbol symbol)
  | bit :: path, t =>
    let branches : Option (WordTree × WordTree) :=
      match t with
      | .nothing => some (.nothing, .nothing)
      | .symbol _ => none
      | .fork zero one => some (zero, one)
    branches.bind fun (zero, one) =>
      if bit then (enter symbol path one).map (.fork zero)
      else (enter symbol path zero).map (.fork · one)

/-- The symbol that the bits of a number lead to, lowest bit first. -/
def find? : WordTree → Nat → Option Nat
  | .nothing, _ => none
  | .symbol n, _ => some n
  | .fork zero one, bits => if bits.testBit 0 then one.find? (bits / 2) else zero.find? (bits / 2)

end WordTree

structure LooseCode where
  /-- How many bits the table takes. -/
  width : Nat
  table : Array WordTree
  lengths : Array Nat

namespace LooseCode

/-- The lowest `width` bits of a number, in reverse. -/
def reversed : Nat → Nat → Nat
  | 0, _ => 0
  | width + 1, n => ((n % 2) <<< width) + reversed width (n / 2)

/-- The words of symbols by their lengths, each with its first bit lowest. -/
def words (lengths : List Nat) : List Nat :=
  let step (first length : Nat) : Nat :=
    2 * (first + if length = 1 then 0 else lengths.count (length - 1))
  let firsts := (List.range 16).foldl (fun fs n => fs ++ [step (fs.getLastD 0) (n + 1)]) [0]
  lengths.zipIdx.map fun (length, symbol) =>
    reversed length (firsts.getD length 0 + (lengths.take symbol).count length)

/-- Puts a symbol at every place of the table whose bits begin with its word. -/
def fill (symbol : Nat) (table : Array WordTree) (place step : Nat) : Nat → Array WordTree
  | 0 => table
  | count + 1 => fill symbol (table.setIfInBounds place (.symbol symbol)) (place + step) step count

def enter (width symbol length word : Nat) (table : Array WordTree) : Option (Array WordTree) :=
  if length = 0 then some table
  else if length ≤ width then some (fill symbol table word (1 <<< length) (1 <<< (width - length)))
  else do
    let place := word % (1 <<< width)
    let path := (List.range (length - width)).map fun n => word.testBit (width + n)
    let tree ← WordTree.enter symbol path (← table[place]?)
    pure (table.setIfInBounds place tree)

/-- The code in which the symbol at each place has a word of the length given there. -/
def ofLengths? (width : Nat) (lengths : List Nat) : Option LooseCode := do
  let table ← ((lengths.zip (words lengths)).zipIdx).foldlM
    (fun table ((length, word), symbol) => enter width symbol length word table)
    (Array.replicate (1 <<< width) .nothing)
  pure ⟨width, table, lengths.toArray⟩

/-- The number of up to `width` bits; bits after the end are zero. The answer says how many there are. -/
def window (bit : BitSource) (position : Nat) : Nat → Nat × Nat
  | 0 => (0, 0)
  | width + 1 =>
    match bit position with
    | .error _ => (0, 0)
    | .ok b =>
      let (bits, count) := window bit (position + 1) width
      (b + 2 * bits, count + 1)

def read (c : LooseCode) (bit : BitSource) (position : Nat) : Except Stop (Nat × Nat) := do
  let (bits, count) := window bit position 16
  if count = 0 then throw .ended
  let tree ← orInvalid c.table[bits % (1 <<< c.width)]?
  let symbol ← orInvalid (tree.find? (bits >>> c.width))
  let length ← orInvalid c.lengths[symbol]?
  if count < length then throw .ended
  return (symbol, position + length)

end LooseCode
end BillOfMaterials.Archive.Deflate
