import BillOfMaterials.Archive.Checksum
import BillOfMaterials.Text.Utf8

/-!
# The format of archives

An archive file is a sequence of local entries, each a header before packed data, then a directory
with a header for each entry, then one end record that tells where the directory begins. Numbers are
little-endian. This module names the signatures and lengths of the records and writes archives whose
entries are stored as they are.
-/
namespace BillOfMaterials.Archive.Format

def localSignature : Nat := 0x04034B50

def directorySignature : Nat := 0x02014B50

def endSignature : Nat := 0x06054B50

def wideEndSignature : Nat := 0x06064B50

def locatorSignature : Nat := 0x07064B50

/-- The length of a local header up to the name. -/
def localLength : Nat := 30

/-- The length of a header in the directory up to the name. -/
def directoryLength : Nat := 46

/-- The length of the end record up to the comment. -/
def endLength : Nat := 22

def locatorLength : Nat := 20

def stored : Nat := 0

/-- The number that stands for the method of an entry with strong encryption. The true method then
stands in an extra field, without which the header is not valid. -/
def sealed : Nat := 99

def encryptedMark : Nat := 1

def utf8Mark : Nat := 0x800

/-- A number in `width` bytes. -/
def number : Nat → Nat → Bytes
  | 0, _ => []
  | width + 1, n => n.toUInt8 :: number width (n / 256)

/-- An entry to be written. -/
structure StoredEntry where
  name : String
  data : ByteArray
  /-- The checksum that is claimed for the data. -/
  checksum : UInt32 := Checksum.ofBytes data
  /-- The method that is claimed to have packed the data. -/
  method : Nat := stored
  encrypted : Bool := false

namespace StoredEntry

/-- The fields that both headers of an entry share. -/
def fields (e : StoredEntry) : Bytes :=
  number 2 20 ++ number 2 (utf8Mark + if e.encrypted then encryptedMark else 0) ++
    number 2 e.method ++ number 4 0x00210000 ++ number 4 e.checksum.toNat ++
    number 4 e.data.size ++ number 4 e.data.size ++ number 2 (Text.bytes e.name).length ++ number 2 0

/-- The entry before the directory. -/
def body (e : StoredEntry) : Bytes :=
  number 4 localSignature ++ e.fields ++ Text.bytes e.name ++ e.data.data.toList

/-- The header in the directory of an entry whose body begins at `offset`. -/
def header (e : StoredEntry) (offset : Nat) : Bytes :=
  number 4 directorySignature ++ number 2 20 ++ e.fields ++ number 2 0 ++ number 2 0 ++ number 2 0 ++
    number 4 0 ++ number 4 offset ++ Text.bytes e.name

end StoredEntry

/-- The headers of entries whose bodies follow each other from `offset` on. -/
def directory (offset : Nat) : List StoredEntry → Bytes
  | [] => []
  | e :: rest => e.header offset ++ directory (offset + e.body.length) rest

def write (entries : List StoredEntry) : ByteArray :=
  let bodies := entries.flatMap StoredEntry.body
  let headers := directory 0 entries
  let ending := number 4 endSignature ++ number 2 0 ++ number 2 0 ++ number 2 entries.length ++
    number 2 entries.length ++ number 4 headers.length ++ number 4 bodies.length ++ number 2 0
  ⟨(bodies ++ headers ++ ending).toArray⟩

end BillOfMaterials.Archive.Format
