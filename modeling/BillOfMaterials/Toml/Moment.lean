import BillOfMaterials.Toml.Scalar

/-!
# Dates and times

A date is a day that the calendar has. A time has hours, minutes and, unless they are left out,
seconds, of which a leap second may be one more. Only a date with a time may have an offset.
-/
namespace BillOfMaterials.Toml.Moment

/-- A number of exactly two digits within bounds. -/
def twoDigits (low high : Nat) : Step Nat
  | a :: b :: rest => do
    let n ← (Scalar.digits? 10 [a, b]).map (Scalar.ofDigits 10)
    if low ≤ n ∧ n ≤ high then some (n, rest) else none
  | _ => none

def mark (c : Char) : Step Unit
  | first :: rest => if first = c then some ((), rest) else none
  | [] => none

def isLeapYear (year : Nat) : Bool := year % 4 = 0 && (year % 100 ≠ 0 || year % 400 = 0)

def daysIn (year month : Nat) : Nat :=
  if month = 2 then if isLeapYear year then 29 else 28
  else if month = 4 ∨ month = 6 ∨ month = 9 ∨ month = 11 then 30
  else 31

/-- A date, `1979-05-27`. -/
def date : Step Unit := fun s => do
  let (century, s) ← twoDigits 0 99 s
  let (ofCentury, s) ← twoDigits 0 99 s
  let (_, s) ← mark '-' s
  let (month, s) ← twoDigits 1 12 s
  let (_, s) ← mark '-' s
  let (_, s) ← twoDigits 1 (daysIn (century * 100 + ofCentury) month) s
  some ((), s)

/-- A fraction of a second, which may be missing. -/
def fraction : Step Unit
  | '.' :: rest =>
    if (rest.takeWhile Char.isDigit).isEmpty then none else some ((), rest.dropWhile Char.isDigit)
  | s => some ((), s)

/-- A time, `07:32:00.5` or `07:32`. -/
def time : Step Unit := fun s => do
  let (_, s) ← twoDigits 0 23 s
  let (_, s) ← mark ':' s
  let (_, s) ← twoDigits 0 59 s
  match s with
  | ':' :: s =>
    let (_, s) ← twoDigits 0 60 s
    fraction s
  | s => some ((), s)

/-- An offset, which may be missing. -/
def offset : Step Unit
  | 'Z' :: rest | 'z' :: rest => some ((), rest)
  | '+' :: rest | '-' :: rest => do
    let (_, s) ← twoDigits 0 23 rest
    let (_, s) ← mark ':' s
    let (_, s) ← twoDigits 0 59 s
    some ((), s)
  | s => some ((), s)

/-- Whether a text is a date, a time, or a date and a time with an optional offset. -/
def isMoment (s : List Char) : Bool :=
  match date s with
  | none => (time s).any fun r => r.2.isEmpty
  | some (_, []) => true
  | some (_, separator :: rest) =>
    (separator = 'T' || separator = 't' || separator = ' ') &&
      ((time rest).bind fun r => offset r.2).any fun r => r.2.isEmpty

end BillOfMaterials.Toml.Moment
