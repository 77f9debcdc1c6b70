import BillOfMaterials.Decimal

/-!
# TOML values

What a document of the TOML format holds. The reader is in `BillOfMaterials.Toml.Document`.
-/
namespace BillOfMaterials.Toml

/-- A whole number, as the document writes it: its characters after the sign and the mark of its base,
without underscores. They may be none, or not all digits of the base. Then the number has no value,
which is a fault only where the value is asked for. -/
structure Whole where
  negative : Bool
  base : Nat
  characters : List Char
deriving DecidableEq, Inhabited

/-- A number with a fraction or an exponent, as the document writes it. -/
inductive Fractional where
  | finite (negative : Bool) (size : Decimal)
  | infinite (negative : Bool)
  | notANumber
deriving DecidableEq, Inhabited

inductive Value where
  | text (s : String)
  | whole (n : Whole)
  | fractional (x : Fractional)
  | boolean (b : Bool)
  /-- A date, a time, or both, as the document writes it. -/
  | moment (literal : String)
  | array (items : List Value)
  /-- A table; no two of its entries have the same key. -/
  | table (entries : List (String × Value))
deriving Inhabited

mutual

/-- Whether two values are the same, tables with their entries in one order. -/
def sameValue : Value → Value → Bool
  | .text s, .text s' => s = s'
  | .whole n, .whole n' => n = n'
  | .fractional x, .fractional x' => x = x'
  | .boolean b, .boolean b' => b = b'
  | .moment s, .moment s' => s = s'
  | .array vs, .array ws => sameValues vs ws
  | .table entries, .table entries' => sameEntries entries entries'
  | _, _ => false

def sameValues : List Value → List Value → Bool
  | [], [] => true
  | v :: vs, w :: ws => sameValue v w && sameValues vs ws
  | _, _ => false

def sameEntries : List (String × Value) → List (String × Value) → Bool
  | [], [] => true
  | (k, v) :: rest, (k', w) :: rest' => k = k' && sameValue v w && sameEntries rest rest'
  | _, _ => false

end

mutual

theorem sameValue_iff : ∀ v w : Value, sameValue v w ↔ v = w
  | .text s, w => by cases w <;> simp [sameValue]
  | .whole n, w => by cases w <;> simp [sameValue]
  | .fractional x, w => by cases w <;> simp [sameValue]
  | .boolean b, w => by cases w <;> simp [sameValue]
  | .moment s, w => by cases w <;> simp [sameValue]
  | .array vs, w => by cases w <;> simp [sameValue, sameValues_iff vs]
  | .table entries, w => by cases w <;> simp [sameValue, sameEntries_iff entries]

theorem sameValues_iff : ∀ vs ws : List Value, sameValues vs ws ↔ vs = ws
  | [], ws => by cases ws <;> simp [sameValues]
  | v :: vs, ws => by cases ws <;> simp [sameValues, sameValue_iff v, sameValues_iff vs]

theorem sameEntries_iff : ∀ entries entries' : List (String × Value),
    sameEntries entries entries' ↔ entries = entries'
  | [], entries' => by cases entries' <;> simp [sameEntries]
  | (k, v) :: rest, entries' => by
    rcases entries' with - | ⟨⟨k', w⟩, rest'⟩ <;>
      simp [sameEntries, sameValue_iff v, sameEntries_iff rest]

end

instance : DecidableEq Value := fun v w => decidable_of_iff _ (sameValue_iff v w)

/-- What reads a beginning of the text and leaves the rest. -/
abbrev Step (α : Type) := List Char → Option (α × List Char)

end BillOfMaterials.Toml
