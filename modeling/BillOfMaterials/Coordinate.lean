import BillOfMaterials.Version

/-!
# Coordinates

A published module is named by its group, its artifact and its version. Lists of coordinates are
ordered by the text `group:artifact`; the version only separates coordinates that agree in it.
-/
namespace BillOfMaterials

structure Coordinate where
  group : String
  artifact : String
  version : Version
deriving DecidableEq, Inhabited

namespace Coordinate

/-- The text that names the module without its version. -/
def moduleName (c : Coordinate) : String := c.group ++ ":" ++ c.artifact

/-- The whole coordinate, its three parts separated by colons. -/
def render (c : Coordinate) : String := c.moduleName ++ ":" ++ c.version.render

instance : ToString Coordinate := ⟨render⟩

/-- The bytes of the module name, which its order is read off. -/
def moduleBytes (c : Coordinate) : Bytes :=
  Text.bytes c.group ++ [0x3A] ++ Text.bytes c.artifact

def moduleOrder (a b : Coordinate) : Ordering := compare a.moduleBytes b.moduleBytes

/-- The order by module name, then by version. -/
def order (a b : Coordinate) : Ordering := (moduleOrder a b).then (a.version.order b.version)

/-- Coordinates sorted by module name; those that agree in it keep their order. -/
def sortByModule (cs : List Coordinate) : List Coordinate :=
  cs.mergeSort fun a b => (moduleOrder a b).isLE

/-- Coordinates in full order; those that the order does not tell apart keep their order. -/
def sort (cs : List Coordinate) : List Coordinate := cs.mergeSort fun a b => (order a b).isLE

theorem moduleBytes_eq (c : Coordinate) : c.moduleBytes = Text.bytes c.moduleName := by
  simp [moduleBytes, moduleName, show Text.bytes ":" = [0x3A] from rfl]

end Coordinate
end BillOfMaterials
