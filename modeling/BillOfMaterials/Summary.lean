import BillOfMaterials.Distribution
import BillOfMaterials.Json
import BillOfMaterials.Path
import BillOfMaterials.Text.Blank

/-!
# The summary of a run

What a successful run did, as text for people and as a JSON document.
-/
namespace BillOfMaterials

structure Summary where
  /-- One distribution for each archive, in the order of the archives' names. -/
  distributions : List Distribution
  /-- The manifests written, in the same order. -/
  written : List Path
  /-- Whether the run was told to write nothing. -/
  dryRun : Bool
deriving Inhabited

namespace Summary

def distributionLine (d : Distribution) : String :=
  "  " ++ d.name.display ++ " (" ++ d.archive ++ "): " ++ toString d.coordinates.length ++
    " dependencies\n"

/-- The summary for people, without white space at its end. -/
def toText (s : Summary) : String :=
  if s.distributions.isEmpty then "No distributions reconciled."
  else
    let outcome :=
      if s.dryRun then "\nDry run: no BOMs written."
      else "\nWrote:\n" ++ String.join (s.written.map fun path => "  " ++ path.text ++ "\n")
    let text := "Reconciled distributions:\n" ++ String.join (s.distributions.map distributionLine) ++
      outcome
    String.ofList (Text.trimEnd text.toList)

def coordinateJson (c : Coordinate) : Json :=
  .object [
    ("group_id", .string c.group),
    ("artifact_id", .string c.artifact),
    ("version", .string c.version.render)]

def distributionJson (d : Distribution) : Json :=
  .object [
    ("archive", .string d.archive),
    ("short", .string d.name.short),
    ("display", .string d.name.display),
    ("coordinates", .array (d.coordinates.map coordinateJson)),
    ("unresolved", .array (d.unknown.map .string))]

def toJson (s : Summary) : Json :=
  .object [
    ("distributions", .array (s.distributions.map distributionJson)),
    ("written", .array (s.written.map fun path => .string path.text)),
    ("dry_run", .bool s.dryRun)]

end Summary
end BillOfMaterials
