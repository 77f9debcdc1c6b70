import BillOfMaterials.Archive
import BillOfMaterials.Archive.EndRecord
import BillOfMaterials.Archive.EntryName
import BillOfMaterials.Archive.ExtraField
import BillOfMaterials.Archive.Method

/-!
# Reading archives

The end record of an archive is looked for from the end of the file backwards; one whose directory
cannot be read is no end record. The directory alone says which entries there are; all of them must
lie before it. Only when an entry is opened does its local header matter, so a broken one locks no
other entry.
-/
namespace BillOfMaterials.Archive

open Format

namespace Header

/-- The header at a position of a directory, and the position after it. All places have moved from
where the archive says, and must lie before the directory. -/
def read? (file : ByteArray) (d : Directory) (position : Nat) : Option (Header × Nat) := do
  guard (isSignedAt file directorySignature position)
  let marks ← numberAt? file (position + 8) 2
  let method ← numberAt? file (position + 10) 2
  let checksum ← numberAt? file (position + 16) 4
  let packedLength ← numberAt? file (position + 20) 4
  let length ← numberAt? file (position + 24) 4
  let nameLength ← numberAt? file (position + 28) 2
  let extraLength ← numberAt? file (position + 30) 2
  let commentLength ← numberAt? file (position + 32) 2
  let place ← numberAt? file (position + 42) 4
  let extraStart := position + directoryLength + nameLength
  let commentStart := extraStart + extraLength
  let next := commentStart + commentLength
  guard (next ≤ file.size)
  let part (start stop : Nat) := (file.extract start stop).data.toList
  let isUtf8 := marks / utf8Mark % 2 = 1
  let rawName := part (position + directoryLength) extraStart
  let h : Header :=
    { marks, method, checksum, packedLength, length, place, rawName
      name := EntryName.decode isUtf8 rawName
      comment := EntryName.decode isUtf8 (part commentStart next) }
  let h ← h.withFields? (part extraStart commentStart)
  guard (h.method ≠ sealed ∨ h.isSealed)
  guard (h.place + d.moved < d.start)
  pure ({ h with place := h.place + d.moved }, next)

/-- Where the data of an entry begin, by its local header. -/
def dataStart? (h : Header) (file : ByteArray) : Option Nat := do
  guard (isSignedAt file localSignature h.place)
  let nameLength ← numberAt? file (h.place + 26) 2
  let extraLength ← numberAt? file (h.place + 28) 2
  pure (h.place + localLength + nameLength + extraLength)

/-- The packed data of an entry, as far as the file holds them. -/
def packed? (h : Header) (file : ByteArray) : Option ByteArray :=
  (h.dataStart? file).map fun start =>
    file.extract (min start file.size) (min (start + h.packedLength) file.size)

/-- What an entry holds, by its marks, its method and its checksum. -/
def content (h : Header) (file : ByteArray) : Content :=
  if h.marks % 2 = encryptedMark ∨ h.isSealed then .locked
  else
    match Method.ofNumber? h.method, h.packed? file with
    | some method, some packed =>
      let unpacked := method.unpack packed
      if unpacked.isWhole ∧ (Checksum.ofBytes unpacked.bytes).toNat = h.checksum then
        .sound unpacked.bytes
      else .damaged unpacked.bytes
    | _, _ => .locked

def entry (h : Header) (file : ByteArray) : Entry := ⟨h.name, h.content file⟩

end Header

/-- The entries of the next `count` headers. -/
def entriesAt? (file : ByteArray) (d : Directory) (position : Nat) : Nat → Option (List Entry)
  | 0 => some []
  | count + 1 => do
    let (header, next) ← Header.read? file d position
    let rest ← entriesAt? file d next count
    pure (header.entry file :: rest)

/-- The archive whose end record stands at a position. -/
def endingAt? (file : ByteArray) (position : Nat) : Option Archive := do
  let d ← Directory.endingAt? file position
  (entriesAt? file d d.start d.count).map ofStored

/-- The archive with the last end record that begins before `limit`. -/
def endingBefore? (file : ByteArray) : Nat → Option Archive
  | 0 => none
  | limit + 1 => (endingAt? file limit).or (endingBefore? file limit)

/-- The archive that a file holds. -/
def read? (file : ByteArray) : Option Archive := endingBefore? file (file.size + 1 - endLength)

end BillOfMaterials.Archive
