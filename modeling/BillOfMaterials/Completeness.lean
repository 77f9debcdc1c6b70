import BillOfMaterials.Distribution

/-!
# Completeness

A manifest that lacks a binary is worse than none. One unknown binary anywhere refuses the whole
batch, with one report on all that is unknown.
-/
namespace BillOfMaterials

/-- The unknown binaries of one archive. -/
structure Shortfall where
  archive : String
  unknown : List String
deriving DecidableEq, Inhabited

namespace Shortfall

def lines (s : Shortfall) : String :=
  "  " ++ s.archive ++ "\n" ++ String.join (s.unknown.map fun name => "    - " ++ name ++ "\n")

/-- The report on all archives with unknown binaries. -/
def report (shortfalls : List Shortfall) : String :=
  "Unable to find matching maven coordinates from the following distributions.\n" ++
    String.join (shortfalls.map lines)

end Shortfall

/-- The archives with unknown binaries, in order. -/
def Distribution.shortfalls (distributions : List Distribution) : List Shortfall :=
  (distributions.filter fun d => !d.isComplete).map fun d => ⟨d.archive, d.unknown⟩

end BillOfMaterials
