import BillOfMaterials.Archive.Format
import BillOfMaterials.Archive.Number

/-!
# The end of an archive

The end record tells where the directory begins. If its numbers are too narrow, a locator before it
leads to an end record with wider ones. Data may stand before the archive, so what a record leads to
is looked for from there onwards, and all places are moved along.
-/
namespace BillOfMaterials.Archive

open Format

/-- Where the headers of an archive stand. -/
structure Directory where
  start : Nat
  count : Nat
  /-- How far all places lie behind those that the archive names. -/
  moved : Nat

/-- The first of `count` positions from `start` on at which a signature stands. -/
def firstSigned? (file : ByteArray) (signature start : Nat) : Nat → Option Nat
  | 0 => none
  | count + 1 =>
    if isSignedAt file signature start then some start
    else firstSigned? file signature (start + 1) count

structure EndRecord where
  disk : Nat
  directoryDisk : Nat
  /-- How many headers there are on this disk. -/
  count : Nat
  /-- How many headers there are. -/
  total : Nat
  place : Nat

namespace EndRecord

/-- The end record at a position, if its comment fits into the file. -/
def read? (file : ByteArray) (position : Nat) : Option EndRecord := do
  guard (isSignedAt file endSignature position)
  let disk ← numberAt? file (position + 4) 2
  let directoryDisk ← numberAt? file (position + 6) 2
  let count ← numberAt? file (position + 8) 2
  let total ← numberAt? file (position + 10) 2
  let place ← numberAt? file (position + 16) 4
  let commentLength ← numberAt? file (position + 20) 2
  guard (position + endLength + commentLength ≤ file.size)
  pure { disk, directoryDisk, count, total, place }

/-- Whether a number is at its limit, so that a wider record may stand for this one. -/
def isFull (r : EndRecord) : Bool := r.total = 0xFFFF || r.place = 0xFFFFFFFF

/-- The directory of an archive whose end record stands at a position. An archive without entries
needs no directory. -/
def directory? (r : EndRecord) (file : ByteArray) (position : Nat) : Option Directory := do
  let start ←
    if r.total = 0 then some (max position r.place)
    else firstSigned? file directorySignature r.place (position - r.place)
  guard (r.disk = r.directoryDisk)
  pure ⟨start, r.count, start - r.place⟩

end EndRecord

structure Locator where
  position : Nat
  directoryDisk : Nat
  place : Nat
  disks : Nat

def Locator.before? (file : ByteArray) (position : Nat) : Option Locator := do
  guard (locatorLength ≤ position)
  let position := position - locatorLength
  guard (isSignedAt file locatorSignature position)
  let directoryDisk ← numberAt? file (position + 4) 4
  let place ← numberAt? file (position + 8) 8
  let disks ← numberAt? file (position + 16) 4
  pure { position, directoryDisk, place, disks }

structure WideEndRecord where
  /-- The length of the record without its first twelve bytes. -/
  length : Nat
  writer : Nat
  /-- The version that a reader must know. -/
  reader : Nat
  disk : Nat
  directoryDisk : Nat
  count : Nat
  total : Nat
  place : Nat

namespace WideEndRecord

def read? (file : ByteArray) (position : Nat) : Option WideEndRecord := do
  guard (isSignedAt file wideEndSignature position)
  let length ← numberAt? file (position + 4) 8
  let writer ← numberAt? file (position + 12) 2
  let reader ← numberAt? file (position + 14) 2
  let disk ← numberAt? file (position + 16) 4
  let directoryDisk ← numberAt? file (position + 20) 4
  let count ← numberAt? file (position + 24) 8
  let total ← numberAt? file (position + 32) 8
  let place ← numberAt? file (position + 48) 8
  pure { length, writer, reader, disk, directoryDisk, count, total, place }

/-- Whether a record at a position is the one that a locator leads to: it reaches up to the locator,
and the headers fit before it. -/
def fits (r : WideEndRecord) (position : Nat) (l : Locator) : Bool :=
  44 ≤ r.length && position + r.length + 12 == l.position && r.directoryDisk == l.directoryDisk &&
    r.total * directoryLength + r.place ≤ position

/-- The first record that a locator may lead to, among `count` positions, with its position. -/
def first? (file : ByteArray) (l : Locator) (start : Nat) : Nat → Option (WideEndRecord × Nat)
  | 0 => none
  | count + 1 =>
    match read? file start with
    | some r => if r.fits start l then some (r, start) else first? file l (start + 1) count
    | none => first? file l (start + 1) count

def directory? (file : ByteArray) (l : Locator) : Option Directory := do
  guard (l.disks ≤ 1)
  let (r, position) ← first? file l l.place (l.position - l.place)
  guard (r.count ≤ r.total ∧ r.reader ≤ r.writer ∧ r.disk = r.directoryDisk)
  let moved := position - l.place
  pure ⟨r.place + moved, r.total, moved⟩

end WideEndRecord

def Directory.endingAt? (file : ByteArray) (position : Nat) : Option Directory := do
  let r ← EndRecord.read? file position
  match if r.isFull then Locator.before? file position else none with
  | some l => WideEndRecord.directory? file l
  | none => r.directory? file position

end BillOfMaterials.Archive
