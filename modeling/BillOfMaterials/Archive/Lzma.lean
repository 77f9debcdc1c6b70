import BillOfMaterials.Archive.Lzma.Decoder
import BillOfMaterials.Archive.Number

/-!
# Range-coded data

A header gives the properties, the size of the window, and the size of the data, and range-coded symbols
follow. The window is handed out each time it has been filled, and what has not filled it never is. Data
that end too early count as complete; data that go on after their end are at fault.
-/
namespace BillOfMaterials.Archive.Lzma

structure Header where
  properties : Properties
  window : Nat
  /-- How much data there is; none if the end is marked. -/
  size : Option Nat

def headerLength : Nat := 13

def leastWindow : Nat := 4096

def readHeader (packed : ByteArray) : Except Stop Header := do
  let properties ← orInvalid (Properties.ofNumber? (← orEnded (numberAt? packed 0 1)))
  let window ← orEnded (numberAt? packed 1 4)
  let size ← orEnded (numberAt? packed 5 8)
  return ⟨properties, max window leastWindow, if size = 0xFFFFFFFFFFFFFFFF then none else some size⟩

def unpack (packed : ByteArray) : Unpacked :=
  match readHeader packed with
  | .error .ended => ⟨.empty, true⟩
  | .error .invalid => ⟨.empty, false⟩
  | .ok h =>
    let fuel := 8 * packed.size * 300 + 1
    let range : Range := ⟨packed, headerLength, packed.size, 0, 0, evenLikelihoods h.properties⟩
    let step : Step Unit := do
      Range.start
      Decoder.symbols (h.size.getD 0x10000000000000000) fuel
    let (answer, d, r) := Decoder.run step (.fresh h.properties (some h.window)) range
    let windows := d.out.extract 0 (d.out.size / h.window * h.window)
    match answer with
    | .error .ended => ⟨windows, true⟩
    | .error .invalid => ⟨.empty, false⟩
    | .ok () => if r.position = packed.size then ⟨windows, true⟩ else ⟨.empty, false⟩

end BillOfMaterials.Archive.Lzma
