import BillOfMaterials.ArtifactIndex
import BillOfMaterials.Distribution
import BillOfMaterials.NamingRule

/-!
# Mapping binaries to modules

Each packaged binary is looked up in the naming rules first and in the local repository second. A
binary that neither knows stays unknown; no coordinate is made up from part of the evidence.
-/
namespace BillOfMaterials

/-- What is known of a packaged binary. -/
inductive Identity where
  /-- A naming rule gives its module. -/
  | ruled (coordinate : Coordinate) (rule : NamingRule)
  /-- A file of the local repository gives its module. -/
  | found (coordinate : Coordinate) (path : Path)
  | unknown
deriving Inhabited

def Identity.coordinate? : Identity → Option Coordinate
  | .ruled coordinate _ => some coordinate
  | .found coordinate _ => some coordinate
  | .unknown => none

/-- What binaries are mapped by. -/
structure Mapping where
  settings : Settings
  index : ArtifactIndex

namespace Mapping

/-- The identity of the binary with a file name. -/
def identify (m : Mapping) (name : String) : Identity :=
  match NamingRule.ruling? m.settings name with
  | some (coordinate, rule) => .ruled coordinate rule
  | none =>
    match m.index.identify? name with
    | some (coordinate, path) => .found coordinate path
    | none => .unknown

/-- What the log says of one binary. -/
def remark (name : String) : Identity → String
  | .ruled coordinate rule => name ++ " -> " ++ coordinate.render ++ " (" ++ rule.label ++ ")"
  | .found coordinate path => name ++ " -> " ++ coordinate.render ++ " (" ++ path.text ++ ")"
  | .unknown => name ++ " -> unresolved"

def record (m : Mapping) (name : String) : LogRecord :=
  ⟨.trace, .mapping,
    if m.settings.excludes name then name ++ " excluded" else remark name (m.identify name)⟩

/-- The binaries that belong to the manifest. -/
def included (m : Mapping) (binaries : List String) : List String :=
  binaries.filter fun name => !m.settings.excludes name

/-- The distribution of an archive that packages `binaries`. -/
def distribution (m : Mapping) (archive : String) (binaries : List String) : Distribution :=
  let included := m.included binaries
  .assemble archive (.ofArchive archive m.settings.namePrefix)
    (included.filterMap fun name => (m.identify name).coordinate?)
    (included.filter fun name => (m.identify name).coordinate?.isNone)

/-- The distribution of an archive, with a record for each binary and one for the whole. -/
def distributionLogged (m : Mapping) (archive : String) (binaries : List String) :
    Distribution × Log :=
  let d := m.distribution archive binaries
  (d, binaries.map m.record ++
    [⟨.info, .mapping, archive ++ ": " ++ toString d.coordinates.length ++ " coordinates, " ++
      toString d.unknown.length ++ " unresolved"⟩])

end Mapping
end BillOfMaterials
