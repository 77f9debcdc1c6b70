import BillOfMaterials.Text.Invisible

/-!
# Quoted text

A text between double quotes in which nothing is hidden: quotes, backslashes, line breaks and whatever
cannot be shown by itself are written as escapes.
-/
namespace BillOfMaterials.Text

/-- The hexadecimal digits of a code point, without leading zeros. -/
def codeDigits (c : Char) : List Char := Nat.toDigits 16 c.toNat

def quoteChar (c : Char) : List Char :=
  if c = '"' ∨ c = '\\' then ['\\', c]
  else if c = '\x00' then ['\\', '0']
  else if c = '\t' then ['\\', 't']
  else if c = '\n' then ['\\', 'n']
  else if c = '\r' then ['\\', 'r']
  else if isInvisible c then ['\\', 'u', '\x7b'] ++ codeDigits c ++ ['\x7d']
  else [c]

def quoted (s : String) : String := String.ofList ('"' :: (s.toList.flatMap quoteChar ++ ['"']))

end BillOfMaterials.Text
