import BillOfMaterials.Text.Marker
import BillOfMaterials.Text.UpperCase

/-!
# Names of distributions

A server archive is named after a distribution and a version. The short name of the distribution
serves as directory and artifact name, the display name is for people.
-/
namespace BillOfMaterials

structure DistributionName where
  short : String
  display : String
deriving DecidableEq, Inhabited

namespace DistributionName

/-- An archive's name up to its version, which begins at the first `-` that an ASCII digit
follows. A name without a version is taken whole. -/
def unversioned : List Char → List Char
  | '-' :: c :: rest => if c.isDigit then [] else '-' :: unversioned (c :: rest)
  | c :: rest => c :: unversioned rest
  | [] => []

/-- The short name: the archive's name without its version and without any occurrence of `prefix`. -/
def shortName (namePrefix archive : List Char) : List Char :=
  Text.replaceAll namePrefix [] (unversioned archive)

/-- One word of the display name: the first letter large, and the spellings of the product. -/
def displayWord (word : List Char) : List Char :=
  Text.replaceAll ['p', 'r', 'o', 'f', 'i', 'l', 'e'] ['P', 'r', 'o', 'f', 'i', 'l', 'e']
    (Text.replaceAll ['e', 'e'] ['E', 'E'] (Text.capitalize word))

/-- The words of the short name, blanks for its hyphens. -/
def displayName (short : List Char) : List Char :=
  Text.joinWith [' '] ((Text.splitOn '-' short).map displayWord)

def ofArchive (archive namePrefix : String) : DistributionName :=
  let short := shortName namePrefix.toList archive.toList
  ⟨String.ofList short, String.ofList (displayName short)⟩

end DistributionName
end BillOfMaterials
