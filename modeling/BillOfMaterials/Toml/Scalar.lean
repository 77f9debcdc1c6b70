import BillOfMaterials.Text.Marker
import BillOfMaterials.Toml

/-!
# Numbers and truth values

A value that is neither quoted nor bracketed is one run of characters. Each kind of scalar is read from
the whole of its run. A whole number is known by its beginning and by where its underscores stand; what
its characters stand for is a question of its own.
-/
namespace BillOfMaterials.Toml
namespace Scalar

/-- The value of a digit in a base up to sixteen. -/
def digit? (base : Nat) (c : Char) : Option Nat :=
  let value :=
    if '0' ≤ c ∧ c ≤ '9' then c.toNat - 0x30
    else if 'a' ≤ c ∧ c ≤ 'f' then c.toNat - 0x57
    else if 'A' ≤ c ∧ c ≤ 'F' then c.toNat - 0x37
    else base
  if value < base then some value else none

/-- Digits with single underscores between them; there must be one. -/
def digits? (base : Nat) (s : List Char) : Option (List Nat) :=
  let groups := Text.splitOn '_' s
  if groups.any List.isEmpty then none else groups.flatten.mapM (digit? base)

def ofDigits (base : Nat) (digits : List Nat) : Nat := digits.foldl (fun n d => n * base + d) 0

/-- Digits before a fraction or an exponent: a zero begins no other number than zero. -/
def wholeDigits? (s : List Char) : Option (List Nat) :=
  match s with
  | '0' :: _ :: _ => none
  | _ => digits? 10 s

/-- Whether a minus stands before a number, and the number. -/
def splitSign : List Char → Bool × List Char
  | '-' :: rest => (true, rest)
  | '+' :: rest => (false, rest)
  | s => (false, s)

def signed (negative : Bool) (n : Nat) : Int := if negative then -(n : Int) else n

/-- The characters of a whole number in another base than ten: digits with single underscores between
them, or nothing. -/
def otherBase? (base : Nat) : List Char → Option Whole
  | [] => some ⟨false, base, []⟩
  | s => (digits? base s).map fun _ => ⟨false, base, s.filter (· ≠ '_')⟩

def isHexadecimal (c : Char) : Bool := (digit? 16 c).isSome

/-- Whether what stands behind the first underscore of a whole number may stand there: every part
between underscores begins and ends as a number in base sixteen does, the last one need only begin so. -/
def areParts : List (List Char) → Bool
  | [] => true
  | [last] => last.head?.any isHexadecimal
  | part :: rest => part.head?.any isHexadecimal && part.getLast?.any isHexadecimal && areParts rest

/-- Whether a character begins the fraction or the exponent of a number. -/
def isFractionalMark (c : Char) : Bool := c = '.' || c = 'e' || c = 'E'

/-- A whole number in base ten: zero, or digits of which the first is not zero. What follows after an
underscore may hold other characters, but no mark of a fraction, and of the blanks only the tab. -/
def baseTen? (s : List Char) : Option Whole :=
  let (negative, value) := splitSign s
  let isWhole :=
    match value.takeWhile Char.isDigit, value.dropWhile Char.isDigit with
    | ['0'], [] => true
    | [], _ | '0' :: _, _ => false
    | _, [] => true
    | _, '_' :: rest =>
      !rest.any (fun c => c = ' ' || isFractionalMark c) && areParts (Text.splitOn '_' rest)
    | _, _ => false
  if isWhole then some ⟨negative, 10, value.filter (· ≠ '_')⟩ else none

/-- A whole number in base two, eight, ten or sixteen; only one in base ten may have a sign. -/
def whole? : List Char → Option Whole
  | '0' :: 'x' :: rest => otherBase? 16 rest
  | '0' :: 'o' :: rest => otherBase? 8 rest
  | '0' :: 'b' :: rest => otherBase? 2 rest
  | s => baseTen? s

def isExponentMark (c : Char) : Bool := c = 'e' || c = 'E'

/-- The exponent that follows the other digits of a number; none is zero. -/
def exponent? : List Char → Option Int
  | [] => some 0
  | _ :: rest =>
    let (negative, rest) := splitSign rest
    (digits? 10 rest).map fun ds => signed negative (ofDigits 10 ds)

/-- The digits of the fraction; none if there is no fraction. -/
def fraction? : List Char → Option (List Nat)
  | [] => some []
  | _ :: rest => digits? 10 rest

/-- A number with a fraction, an exponent, or both. -/
def finite? (negative : Bool) (s : List Char) : Option Fractional := do
  let mantissa := s.takeWhile fun c => !isExponentMark c
  let exponentPart := s.dropWhile fun c => !isExponentMark c
  let whole := mantissa.takeWhile (· ≠ '.')
  let fractionPart := mantissa.dropWhile (· ≠ '.')
  guard (exponentPart ≠ [] ∨ fractionPart ≠ [])
  let wholeDigits ← wholeDigits? whole
  let fractionDigits ← fraction? fractionPart
  let exponent ← exponent? exponentPart
  pure (.finite negative
    ⟨ofDigits 10 (wholeDigits ++ fractionDigits), exponent - fractionDigits.length⟩)

/-- A number with a fraction or an exponent, or no number at all. -/
def fractional? (s : List Char) : Option Fractional :=
  match splitSign s with
  | (negative, ['i', 'n', 'f']) => some (.infinite negative)
  | (_, ['n', 'a', 'n']) => some .notANumber
  | (negative, rest) => finite? negative rest

def boolean? : List Char → Option Bool
  | ['t', 'r', 'u', 'e'] => some true
  | ['f', 'a', 'l', 's', 'e'] => some false
  | _ => none

end Scalar

/-- The number that a whole number stands for; none if its characters stand for none. -/
def Whole.value? (n : Whole) : Option Int := do
  guard (n.characters ≠ [])
  let digits ← n.characters.mapM (Scalar.digit? n.base)
  pure (Scalar.signed n.negative (Scalar.ofDigits n.base digits))

end BillOfMaterials.Toml
