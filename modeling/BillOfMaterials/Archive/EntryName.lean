import BillOfMaterials.Text.Utf8

/-!
# Names in archives

An entry says whether its name is UTF-8. A name of which it does not say so is in code page 437, the
set of characters of the machines on which the format began.
-/
namespace BillOfMaterials.Archive.EntryName

/-- The characters of code page 437 from `80` on. -/
def upperHalf : List Char :=
  ("ÇüéâäàåçêëèïîìÄÅÉæÆôöòûùÿÖÜ¢£¥₧ƒáíóúñÑªº¿⌐¬½¼¡«»░▒▓│┤╡╢╖╕╣║╗╝╜╛┐└┴┬├─┼╞╟╚╔╩╦╠═╬╧╨╤╥╙╘╒╓╫╪┘┌█▄▌▐▀" ++
    "αßΓπΣσµτΦΘΩδ∞φε∩≡±≥≤⌠⌡÷≈°∙·√ⁿ²■\u00A0").toList

/-- The character of a byte in code page 437. -/
def character (byte : UInt8) : Char :=
  if byte < 0x80 then Char.ofNat byte.toNat
  else upperHalf.getD (byte.toNat - 0x80) Text.replacement

def decode (isUtf8 : Bool) (name : Bytes) : String :=
  if isUtf8 then Text.ofBytes name else String.ofList (name.map character)

end BillOfMaterials.Archive.EntryName
