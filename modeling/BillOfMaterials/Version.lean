import BillOfMaterials.Text.Utf8

/-!
# Versions of published modules

A module's version is either fixed or inherited from a property of the build that reads the
manifest. Binaries that are shipped without a version inherit theirs.
-/
namespace BillOfMaterials

inductive Version where
  /-- A version as it stands, such as `1.1.0`. -/
  | fixed (text : String)
  /-- The value of a build property, looked up by the reader of the manifest. -/
  | inherited (property : String)
deriving DecidableEq, Inhabited

namespace Version

/-- The version of the project that is being released. -/
def project : Version := .inherited "project.version"

/-- The version of the server platform that the project ships. -/
def platform : Version := .inherited "tomcat.version"

/-- A fixed version stands for itself; a property is written `$\x7bname\x7d`. -/
def render : Version → String
  | .fixed text => text
  | .inherited property => "$\x7b" ++ property ++ "\x7d"

instance : ToString Version := ⟨render⟩

/-- Fixed versions come before inherited ones; within each kind the text decides. -/
def order : Version → Version → Ordering
  | .fixed a, .fixed b => Text.order a b
  | .fixed _, .inherited _ => .lt
  | .inherited _, .fixed _ => .gt
  | .inherited a, .inherited b => Text.order a b

end Version
end BillOfMaterials
