import BillOfMaterials.Text.Marker
import Std.Data.HashMap
import Std.Data.TreeMap

/-!
# Required claims

A token carries claims by name. A requirement asks for one name and looks at nothing else: neither
the value of the claim nor the way in which the token keeps it.
-/
namespace BillOfMaterials

/-- A type of tokens that can be asked for a claim by its name. -/
class ClaimSource (τ : Type) (ν : outParam Type) where
  claim? : τ → String → Option ν

instance {ν : Type} {hasher : Hashable String} : ClaimSource (Std.HashMap String ν) ν :=
  ⟨fun token name => token[name]?⟩

instance {ν : Type} : ClaimSource (Std.TreeMap String ν) ν := ⟨fun token name => token[name]?⟩

/-- A token that lists its claims, as the members of an object do. -/
structure ClaimList (ν : Type) where
  claims : List (String × ν)

instance {ν : Type} : ClaimSource (ClaimList ν) ν := ⟨fun token name => token.claims.lookup name⟩

/-- A token known through another one that carries the claims. -/
structure TokenRef (τ : Type) where
  referent : τ

instance {τ ν : Type} [ClaimSource τ ν] : ClaimSource (TokenRef τ) ν :=
  ⟨fun token name => ClaimSource.claim? token.referent name⟩

/-- The requirement that a token carries the claim `name`, with the text to report otherwise. -/
structure ClaimRequirement where
  name : String
  template : String := "The '\x7bvalue\x7d' claim is required"
deriving DecidableEq

/-- A required claim was absent from the token. -/
structure AbsentClaim where
  name : String
  message : String
deriving DecidableEq

namespace ClaimRequirement

/-- The place in a template where the claim's name is put. -/
def placeholder : String := "\x7bvalue\x7d"

/-- The text to report, the name put for every placeholder in one pass. -/
def message (r : ClaimRequirement) : String := Text.replace r.template placeholder r.name

variable {τ ν : Type} [ClaimSource τ ν]

def holds (r : ClaimRequirement) (token : τ) : Bool := (ClaimSource.claim? token r.name).isSome

def check (r : ClaimRequirement) (token : τ) : Except AbsentClaim Unit :=
  if r.holds token then .ok () else .error ⟨r.name, r.message⟩

end ClaimRequirement
end BillOfMaterials
