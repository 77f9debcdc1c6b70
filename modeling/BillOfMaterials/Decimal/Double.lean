import BillOfMaterials.Decimal

/-!
# Double precision

The numbers `significand * 2 ^ exponent` with a significand below `2 ^ 53` and an exponent from -1074
to 971. A decimal number is rounded to the nearest of them, a tie to the even significand. Back, a
double is written with the fewest digits that round to it.
-/
namespace BillOfMaterials

/-- A finite double without its sign. -/
structure Double where
  significand : Nat
  exponent : Int
deriving DecidableEq, Inhabited

namespace Double

def minExponent : Int := -1074

def maxExponent : Int := 971

/-- `base ^ n` if `n` is positive, and 1 if not. -/
def powPos (base : Nat) (n : Int) : Nat := base.pow n.toNat

/-- A quotient rounded to the nearest number, a tie to the even one. -/
def roundDiv (num den : Nat) : Nat :=
  let q := num / den
  let r := num % den
  if 2 * r < den ∨ (2 * r = den ∧ q % 2 = 0) then q else q + 1

/-- The double nearest to `num / den`; none if it would be too large. -/
def ofRatio? (num den : Nat) : Option Double :=
  let estimate : Int := (num.log2 : Int) - den.log2 - 53
  let start := max minExponent estimate
  let scaledNum (e : Int) := num * powPos 2 (-e)
  let scaledDen (e : Int) := den * powPos 2 e
  let e := if 1 <<< 53 ≤ scaledNum start / scaledDen start then start + 1 else start
  let m := roundDiv (scaledNum e) (scaledDen e)
  let d : Double := if m = 1 <<< 53 then ⟨1 <<< 52, e + 1⟩ else ⟨m, e⟩
  if d.exponent ≤ maxExponent then some d else none

/-- The double nearest to a decimal number; none if it would be too large. -/
def ofDecimal? (d : Decimal) : Option Double :=
  let magnitude : Int := (Nat.toDigits 10 d.digits).length + d.exponent
  if d.digits = 0 ∨ magnitude < -400 then some ⟨0, minExponent⟩
  else if 400 < magnitude then none
  else ofRatio? (d.digits * powPos 10 d.exponent) (powPos 10 (-d.exponent))

/-- Whether `candidate * 10 ^ k` rounds to `d`. The bounds lie half way to the neighbours of `d`, below
a power of two a quarter way, and belong to it if its significand is even. -/
def isReadAs (d : Double) (k : Int) (candidate : Nat) : Bool :=
  let lower := if d.significand = 1 <<< 52 ∧ minExponent < d.exponent then 1 else 2
  let q := d.exponent - 2
  let unit := powPos 2 q * powPos 10 (-k)
  let value := candidate * powPos 10 k * powPos 2 (-q)
  let low := (4 * d.significand - lower) * unit
  let high := (4 * d.significand + 2) * unit
  if d.significand % 2 = 0 then low ≤ value && value ≤ high else low < value && value < high

/-- The multiple of `10 ^ k` next to `d` that rounds to `d`; of two the nearer, and the upper one if
both are as near. -/
def onGrid? (d : Double) (k : Int) : Option Nat :=
  let num := d.significand * powPos 2 d.exponent * powPos 10 (-k)
  let den := powPos 2 (-d.exponent) * powPos 10 k
  let below := num / den
  let nearest := if 2 * (num % den) < den then below else below + 1
  let other := if nearest = below then below + 1 else below
  if isReadAs d k nearest then some nearest
  else if isReadAs d k other then some other
  else none

/-- The decimal number of the coarsest grid that has one, among `count` grids from `10 ^ k` down. -/
def onFirstGrid (d : Double) (k : Int) : Nat → Decimal
  | 0 => ⟨0, 0⟩
  | count + 1 =>
    match onGrid? d k with
    | some digits => ⟨digits, k⟩
    | none => onFirstGrid d (k - 1) count

/-- The decimal number with the fewest digits that rounds to `d`. -/
def shortest (d : Double) : Decimal :=
  if d.significand = 0 then ⟨0, 0⟩ else onFirstGrid d 309 634

end Double
end BillOfMaterials
