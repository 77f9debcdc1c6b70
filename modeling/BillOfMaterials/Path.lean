import BillOfMaterials.Text.Marker
import BillOfMaterials.Text.Utf8

/-!
# Paths

A path is a spelling: bytes in which `/` separates pieces. Several spellings name one place, so
questions about a path are asked of its components: repeated separators and `.` pieces vanish, a
`.` at the very beginning and every `..` stay, and a path that begins with `/` begins with the root.
-/
namespace BillOfMaterials

/-- A path as it is spelled. -/
structure Path where
  spelling : Bytes
deriving DecidableEq, Inhabited

namespace Path

/-- The separator of pieces. -/
def slash : UInt8 := 0x2F

def dot : UInt8 := 0x2E

inductive Component where
  | root
  /-- A `.` at the beginning. -/
  | here
  /-- `..`, the directory above. -/
  | up
  /-- An ordinary name. -/
  | name (bytes : Bytes)
deriving DecidableEq, Inhabited

namespace Component

/-- The component of a piece; the empty piece and `.` have none. -/
def ofPiece? (piece : Bytes) : Option Component :=
  if piece = [] ∨ piece = [dot] then none
  else if piece = [dot, dot] then some .up
  else some (.name piece)

def spelling : Component → Bytes
  | .root => [slash]
  | .here => [dot]
  | .up => [dot, dot]
  | .name bytes => bytes

/-- The text of a component, ill-formed bytes replaced. -/
def text (c : Component) : String := Text.ofBytes c.spelling

/-- The place of the kinds of component in the order. -/
def rank : Component → Nat
  | .root => 0
  | .here => 1
  | .up => 2
  | .name _ => 3

/-- The root comes first, then a leading `.`, then `..`, then names by their bytes. -/
def order : Component → Component → Ordering
  | .name a, .name b => compare a b
  | a, b => compare a.rank b.rank

end Component

def ofString (s : String) : Path := ⟨Text.bytes s⟩

/-- The path as text, ill-formed bytes replaced. -/
def text (p : Path) : String := Text.ofBytes p.spelling

/-- A path whose spelling is well-formed text. -/
def isText (p : Path) : Bool := Text.wellFormed p.spelling

def isAbsolute (p : Path) : Bool := p.spelling.head? == some slash

def pieces (p : Path) : List Bytes := Text.splitOn slash p.spelling

def components (p : Path) : List Component :=
  let rest := p.pieces.filterMap Component.ofPiece?
  if p.isAbsolute then .root :: rest
  else if p.pieces.head? = some [dot] then .here :: rest
  else rest

/-- The path that spells out components, without needless separators. -/
def ofComponents : List Component → Path
  | .root :: rest => ⟨slash :: Text.joinWith [slash] (rest.map Component.spelling)⟩
  | components => ⟨Text.joinWith [slash] (components.map Component.spelling)⟩

/-- `p` followed by `q`. An absolute `q` stands for itself; otherwise a separator is put between
the two unless `p` is empty or already ends in one. -/
def join (p q : Path) : Path :=
  if q.isAbsolute then q
  else if p.spelling = [] ∨ p.spelling.getLast? = some slash then ⟨p.spelling ++ q.spelling⟩
  else ⟨p.spelling ++ slash :: q.spelling⟩

/-- The name of the file that the path leads to: its last component, if that is an ordinary name. -/
def fileName? (p : Path) : Option Bytes :=
  match p.components.getLast? with
  | some (.name bytes) => some bytes
  | _ => none

/-- The path without its last component; the root and the empty path have no parent. -/
def parent? (p : Path) : Option Path :=
  match p.components.getLast? with
  | none | some .root => none
  | some _ => some (ofComponents p.components.dropLast)

/-- What follows the last dot of a file name. A name whose only dot is its first byte has no
extension, and neither has a name without a dot. -/
def extensionOf? (name : Bytes) : Option Bytes :=
  match name.reverse.dropWhile (· ≠ dot) with
  | _ :: _ :: _ => some (name.reverse.takeWhile (· ≠ dot)).reverse
  | _ => none

def extension? (p : Path) : Option Bytes := p.fileName?.bind extensionOf?

/-- What is left of `path` after the components of `root`. -/
def below? (root path : Path) : Option (List Component) :=
  if root.components.isPrefixOf path.components then
    some (path.components.drop root.components.length)
  else none

/-- The pieces that lead along the path one after the other, `.` and `..` among them. A separator at
the end asks for a directory, as a last piece `.` does. -/
def steps (p : Path) : List Bytes :=
  let named := p.pieces.filter (· ≠ [])
  if p.spelling.getLast? = some slash ∧ named ≠ [] then named ++ [[dot]] else named

/-- The order of paths: that of their components, one after the other. -/
def order (p q : Path) : Ordering := List.compareLex Component.order p.components q.components

end Path
end BillOfMaterials
