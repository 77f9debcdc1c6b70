import BillOfMaterials.Archive.Deflate.LooseCode

/-!
# Schemes of deflating

Deflated data repeat earlier parts and give frequent symbols short words. There are two schemes: in the
wide one, parts may be longer and may lie further back, and codes are read with less care.
-/
namespace BillOfMaterials.Archive.Deflate

inductive Code where
  | exact (c : PrefixCode)
  | loose (c : LooseCode)

def Code.read : Code → BitSource → Nat → Except Stop (Nat × Nat)
  | .exact c => c.read
  | .loose c => c.read

/-- In what the schemes differ. -/
structure Scheme where
  /-- The least length that a length symbol stands for, and the number of bits that are added to it. -/
  lengthBases : Array (Nat × Nat)
  /-- The least distance that a distance symbol stands for, and the number of bits that are added. -/
  distanceBases : Array (Nat × Nat)
  /-- How many literal symbols, and how many distance symbols, a block may bring. -/
  maxSymbols : Nat × Nat
  lengthCode? : List Nat → Option Code
  literalCode? : List Nat → Option Code
  distanceCode? : List Nat → Option Code

/-- The lengths that the symbols of either scheme but the last one stand for. -/
def usualLengths : Array (Nat × Nat) :=
  #[(3, 0), (4, 0), (5, 0), (6, 0), (7, 0), (8, 0), (9, 0), (10, 0), (11, 1), (13, 1), (15, 1),
    (17, 1), (19, 2), (23, 2), (27, 2), (31, 2), (35, 3), (43, 3), (51, 3), (59, 3), (67, 4),
    (83, 4), (99, 4), (115, 4), (131, 5), (163, 5), (195, 5), (227, 5)]

/-- The distances that the symbols of both schemes stand for. -/
def usualDistances : Array (Nat × Nat) :=
  #[(1, 0), (2, 0), (3, 0), (4, 0), (5, 1), (7, 1), (9, 2), (13, 2), (17, 3), (25, 3), (33, 4),
    (49, 4), (65, 5), (97, 5), (129, 6), (193, 6), (257, 7), (385, 7), (513, 8), (769, 8),
    (1025, 9), (1537, 9), (2049, 10), (3073, 10), (4097, 11), (6145, 11), (8193, 12), (12289, 12),
    (16385, 13), (24577, 13)]

def longest : Nat := 15

/-- The exact code that leaves no words unused. -/
def completeCode? (lengths : List Nat) : Option Code :=
  let c := PrefixCode.ofLengths longest lengths
  if c.isComplete then some (.exact c) else none

/-- The exact code that leaves no words unused unless it has no word, or one of a single bit. -/
def nearlyCompleteCode? (lengths : List Nat) : Option Code :=
  let c := PrefixCode.ofLengths longest lengths
  if c.isComplete ∨ lengths.filter (· ≠ 0) ∈ [[], [1]] then some (.exact c) else none

/-- The scheme of 32 kilobytes. -/
def Scheme.narrow : Scheme where
  lengthBases := usualLengths.push (258, 0)
  distanceBases := usualDistances
  maxSymbols := (286, 30)
  lengthCode? := completeCode?
  literalCode? := nearlyCompleteCode?
  distanceCode? := nearlyCompleteCode?

def blockEnd : Nat := 256

def looseCode? (width : Nat) (lengths : List Nat) : Option Code :=
  (LooseCode.ofLengths? width lengths).map Code.loose

/-- The scheme of 64 kilobytes. -/
def Scheme.wide : Scheme where
  lengthBases := usualLengths.push (3, 16)
  distanceBases := (usualDistances.push (32769, 14)).push (49153, 14)
  maxSymbols := (288, 32)
  lengthCode? := looseCode? 7
  literalCode? := fun lengths =>
    if lengths.getD blockEnd 0 = 0 then none else looseCode? 9 lengths
  distanceCode? := looseCode? 7

end BillOfMaterials.Archive.Deflate
