import BillOfMaterials.Coordinate
import BillOfMaterials.DistributionName

/-!
# Distributions

What one server archive holds: the coordinates of the binaries whose module is known, and the file
names of the others.
-/
namespace BillOfMaterials

structure Distribution where
  archive : String
  name : DistributionName
  /-- The known modules, in the order of their module names. -/
  coordinates : List Coordinate
  /-- The file names of the binaries whose module is unknown. -/
  unknown : List String
deriving DecidableEq, Inhabited

namespace Distribution

/-- A distribution with its coordinates put in order. -/
def assemble (archive : String) (name : DistributionName) (coordinates : List Coordinate)
    (unknown : List String) : Distribution :=
  ⟨archive, name, Coordinate.sortByModule coordinates, unknown⟩

/-- Whether the module of every binary is known. -/
def isComplete (d : Distribution) : Bool := d.unknown.isEmpty

end Distribution
end BillOfMaterials
