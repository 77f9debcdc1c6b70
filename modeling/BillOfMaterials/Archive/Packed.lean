/-!
# Packed data

Each method of packing has a function from the packed bytes to what comes out of them. Bytes are handed
out in portions while unpacking goes on, so a fault may lose those that wait for their portion to be
filled.
-/
namespace BillOfMaterials.Archive

/-- Why reading stops before its end. -/
inductive Stop where
  /-- There is nothing left to read. -/
  | ended
  /-- What has been read breaks the rules. -/
  | invalid
deriving DecidableEq

/-- What comes out of packed data. -/
structure Unpacked where
  bytes : ByteArray
  /-- Whether unpacking came to its end. -/
  isWhole : Bool

/-- The portions of `size` bytes that have been handed out by the time a fault follows. The last one is
handed out only when there is more. -/
def handedOut (size : Nat) (bytes : ByteArray) : ByteArray :=
  bytes.extract 0 ((bytes.size - 1) / size * size)

def require (condition : Bool) : Except Stop Unit :=
  if condition then .ok () else .error .invalid

/-- What must be there; without it there is nothing left to read. -/
def orEnded {α : Type} : Option α → Except Stop α
  | some a => .ok a
  | none => .error .ended

/-- What must be there; without it the rules are broken. -/
def orInvalid {α : Type} : Option α → Except Stop α
  | some a => .ok a
  | none => .error .invalid

end BillOfMaterials.Archive
