import BillOfMaterials.Distribution
import BillOfMaterials.Path

/-!
# Where manifests lie

The manifest of a distribution lies in a directory of its own below the output directory, under the
short name of the distribution.
-/
namespace BillOfMaterials.Bom

def fileName : String := "pom.xml"

/-- The path of the manifest of a distribution. -/
def path (output : Path) (d : Distribution) : Path :=
  (output.join (.ofString d.name.short)).join (.ofString fileName)

end BillOfMaterials.Bom
