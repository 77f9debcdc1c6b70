/-!
# Text as bytes

File names are byte sequences, and every order on text in this library is the order of its UTF-8
bytes. This module gives the bytes of a text, the order, and the reading of arbitrary bytes as text
in which each ill-formed part becomes one replacement character.
-/
namespace BillOfMaterials

/-- A byte sequence, as file names and paths hold it. -/
abbrev Bytes := List UInt8

namespace Text

def bytes (s : String) : Bytes := s.toByteArray.data.toList

@[simp] theorem bytes_append (s t : String) : bytes (s ++ t) = bytes s ++ bytes t := by
  simp [bytes, String.toByteArray_append]

/-- Two texts with the same bytes are the same text. -/
theorem bytes_injective {s t : String} (h : bytes s = bytes t) : s = t := by
  apply String.ext_iff.2
  have hb : s.toByteArray = t.toByteArray := by
    apply ByteArray.ext
    exact Array.toList_inj.1 h
  rw [String.toByteArray_inj.1 hb]

/-- The order of texts: that of their bytes. -/
def order (s t : String) : Ordering := compare (bytes s) (bytes t)

def startsWith (t s : String) : Bool := s.toList.isPrefixOf t.toList

def endsWith (t s : String) : Bool := s.toList.isSuffixOf t.toList

/-! ## Reading bytes as text -/

/-- A character of which some bytes have been read: the bits so far, the number of bytes still
owed, and the range that the next one must lie in. -/
structure Pending where
  bits : Nat
  owed : Nat
  low : UInt8
  high : UInt8

/-- What a byte at the beginning of a character stands for. The narrower ranges after `E0`, `ED`,
`F0` and `F4` keep out long forms, surrogates and code points above `10FFFF`. -/
inductive Opening where
  | single (c : Char)
  | first (p : Pending)
  | illFormed

def opening (b : UInt8) : Opening :=
  if b < 0x80 then .single (Char.ofNat b.toNat)
  else if b < 0xC2 then .illFormed
  else if b < 0xE0 then .first ⟨b.toNat - 0xC0, 1, 0x80, 0xBF⟩
  else if b = 0xE0 then .first ⟨0, 2, 0xA0, 0xBF⟩
  else if b = 0xED then .first ⟨0xD, 2, 0x80, 0x9F⟩
  else if b < 0xF0 then .first ⟨b.toNat - 0xE0, 2, 0x80, 0xBF⟩
  else if b = 0xF0 then .first ⟨0, 3, 0x90, 0xBF⟩
  else if b < 0xF4 then .first ⟨b.toNat - 0xF0, 3, 0x80, 0xBF⟩
  else if b = 0xF4 then .first ⟨4, 3, 0x80, 0x8F⟩
  else .illFormed

/-- The character that stands for an ill-formed part. -/
def replacement : Char := '\uFFFD'

/-- Reads bytes as characters, from between two characters (`none`) or inside one. A byte that
cannot continue the character closes the ill-formed part and begins anew. -/
def readFrom : Option Pending → Bytes → List Char
  | none, [] => []
  | some _, [] => [replacement]
  | none, b :: rest =>
    match opening b with
    | .single c => c :: readFrom none rest
    | .first p => readFrom (some p) rest
    | .illFormed => replacement :: readFrom none rest
  | some p, b :: rest =>
    if p.low ≤ b ∧ b ≤ p.high then
      let bits := p.bits * 64 + (b.toNat - 0x80)
      if p.owed ≤ 1 then Char.ofNat bits :: readFrom none rest
      else readFrom (some ⟨bits, p.owed - 1, 0x80, 0xBF⟩) rest
    else
      replacement :: match opening b with
        | .single c => c :: readFrom none rest
        | .first q => readFrom (some q) rest
        | .illFormed => replacement :: readFrom none rest

/-- The text of a byte sequence, ill-formed parts replaced. -/
def ofBytes (bs : Bytes) : String := String.ofList (readFrom none bs)

/-- Whether a byte sequence is well-formed UTF-8: nothing had to be replaced to read it. -/
def wellFormed (bs : Bytes) : Bool := bytes (ofBytes bs) == bs

/-- The text of a byte sequence that is well-formed UTF-8. -/
def ofBytes? (bs : Bytes) : Option String := if wellFormed bs then some (ofBytes bs) else none

end Text
end BillOfMaterials
