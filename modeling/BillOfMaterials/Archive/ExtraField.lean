import BillOfMaterials.Archive.Checksum
import BillOfMaterials.Archive.Number
import BillOfMaterials.Archive.Packed
import BillOfMaterials.Text.Utf8

/-!
# Extra fields

A header may end in extra fields, each with a mark and a length of two bytes before it. Some replace
what the header says; others only have to be well formed. Fields that end too early are passed over
with all that would follow, and what was taken from them by then stays.
-/
namespace BillOfMaterials.Archive

/-- What the directory says of an entry. -/
structure Header where
  /-- Single bits that say how the entry was written. -/
  marks : Nat
  method : Nat
  checksum : Nat
  packedLength : Nat
  length : Nat
  /-- Where the local header stands. -/
  place : Nat
  /-- The name as it was written. -/
  rawName : Bytes
  name : String
  comment : String
  /-- Whether the entry has strong encryption, which hides its method in an extra field. -/
  isSealed : Bool := false

namespace ExtraField

/-- A header with the extra fields that are still to be read. -/
structure Progress where
  header : Header
  rest : Bytes

/-- A step that keeps what it has done when it stops. -/
abbrev Step := ExceptT Stop (StateM Progress)

def take (count : Nat) : Step Bytes := do
  let p ← get
  if p.rest.length < count then throw .ended
  set { p with rest := p.rest.drop count }
  return p.rest.take count

def number (width : Nat) : Step Nat := return ofLowestFirst (← take width)

def ensure (condition : Bool) : Step Unit := if condition then pure () else throw .invalid

def update (f : Header → Header) : Step Unit := modify fun p => { p with header := f p.header }

/-- The mark of a field with numbers of eight bytes. -/
def wideMark : Nat := 0x0001

/-- The mark of a field with times in units of a ten-millionth of a second. -/
def fineTimesMark : Nat := 0x000A

def timesMark : Nat := 0x5455

def sealMark : Nat := 0x9901

def commentMark : Nat := 0x6375

def nameMark : Nat := 0x7075

/-- The number of four bytes that stands for one that is too wide for them. -/
def tooWide : Nat := 0xFFFFFFFF

/-- One number of the field with wide numbers, if the field holds it. The answer is its length. -/
def wideNumber (length current : Nat) (put : Nat → Header → Header) : Step Nat := do
  if 24 ≤ length ∨ current = tooWide then
    let n ← number 8
    update (put n)
    return 8
  else return 0

/-- Numbers of eight bytes for those that are too wide for the header. -/
def wide (length : Nat) : Step Unit := do
  let unpacked ← wideNumber length (← get).header.length fun n h => { h with length := n }
  let packed ← wideNumber length (← get).header.packedLength fun n h => { h with packedLength := n }
  let place ← wideNumber length (← get).header.place fun n h => { h with place := n }
  let used := unpacked + packed + place
  ensure (used ≤ length)
  let _ ← take (length - used)

/-- Three times after a mark of their own. -/
def fineTimes (length : Nat) : Step Unit := do
  ensure (length = 32)
  let _ ← take 4
  ensure ((← number 2) = 1)
  ensure ((← number 2) = 24)
  let _ ← take 24

/-- How many of eight bits are set. -/
def bitCount (n : Nat) : Nat := ((List.range 8).filter fun i => n.testBit i).length

/-- Up to three times, as single bits before them say. No other bit may be set. -/
def times (length : Nat) : Step Unit := do
  let present ← number 1
  ensure (present < 8)
  ensure (length = 5 ∨ length = 1 + 4 * bitCount present)
  if present.testBit 0 ∨ length = 5 then
    let _ ← take 4
  if present.testBit 1 ∧ 5 < length then
    let _ ← take 4
  if present.testBit 2 ∧ 5 < length then
    let _ ← take 4

/-- The version of strong encryption, its maker, its strength and the true method. -/
def encryption (length : Nat) : Step Unit := do
  ensure (length = 7)
  let version ← number 2
  let maker ← number 2
  let strength ← number 1
  let method ← number 2
  ensure (maker = 0x4541)
  ensure (version = 1 ∨ version = 2)
  ensure (strength = 1 ∨ strength = 2 ∨ strength = 3)
  update fun h => { h with method, isSealed := true }

/-- A text that stands for another one, whose checksum it must hold. -/
def replacement (length : Nat) (replaced : Bytes) : Step (Bytes × String) := do
  let _ ← take 1
  let checksum ← number 4
  ensure (5 ≤ length)
  let content ← take (length - 5)
  ensure ((Checksum.ofBytes ⟨replaced.toArray⟩).toNat = checksum)
  match Text.ofBytes? content with
  | some text => return (content, text)
  | none => throw .invalid

def field : Step Unit := do
  let mark ← number 2
  let length ← number 2
  if mark = wideMark then wide length
  else if mark = fineTimesMark then fineTimes length
  else if mark = timesMark then times length
  else if mark = sealMark then encryption length
  else if mark = commentMark then
    let (_, comment) ← replacement length (Text.bytes (← get).header.comment)
    update fun h => { h with comment }
  else if mark = nameMark then
    let (rawName, name) ← replacement length (← get).header.rawName
    update fun h => { h with rawName, name }
  else
    let _ ← take length

/-- Fields until nothing is left that could hold a mark. The number bounds how many there can be. -/
def fields : Nat → Step Unit
  | 0 => pure ()
  | fuel + 1 => do
    if 2 ≤ (← get).rest.length then
      field
      fields fuel

end ExtraField

/-- A header with its extra fields taken in; none if one of them breaks the rules. -/
def Header.withFields? (h : Header) (extra : Bytes) : Option Header :=
  match (ExtraField.fields extra.length).run.run ⟨h, extra⟩ with
  | (.error .invalid, _) => none
  | (_, p) => some p.header

end BillOfMaterials.Archive
