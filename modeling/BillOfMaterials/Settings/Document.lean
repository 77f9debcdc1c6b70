import BillOfMaterials.Decimal.Double
import BillOfMaterials.Settings
import BillOfMaterials.Text.Marker
import BillOfMaterials.Text.Quoted
import BillOfMaterials.Toml.Scalar

/-!
# Settings from a document

Each entry of a document overrides one setting. Entries are visited in the byte order of their keys,
tables before what follows them, so the first fault does not depend on the order in which a document
gives them.
-/
namespace BillOfMaterials

/-- Why the entries of a document are no settings. -/
inductive SettingsFault where
  /-- A key that names no setting, with those that do. -/
  | unknownField (key : String) (known : List String)
  /-- A value of another kind than the setting has. -/
  | wrongKind (found : Toml.Value) (expected : String)

namespace SettingsFault

/-- A piece of a document between marks. -/
def marked (s : String) : String := "`" ++ s ++ "`"

/-- Names between marks, separated as in running text. -/
def alternatives (names : List String) : String :=
  match names.map marked with
  | [first, second] => first ++ " or " ++ second
  | names => "one of " ++ Text.join ", " names

/-- How many numbers have a width of some bits. -/
def numbersOf (bits : Nat) : Int := (1 <<< bits : Nat)

/-- A whole number with its width, where it is wider than 64 bits; none beyond 128 bits. -/
def describeInteger? (n : Int) : Option String :=
  let plain := "integer " ++ marked (toString n)
  if -numbersOf 63 ≤ n ∧ n < numbersOf 64 then some plain
  else if -numbersOf 127 ≤ n ∧ n < numbersOf 127 then some (plain ++ " as i128")
  else if 0 ≤ n ∧ n < numbersOf 128 then some (plain ++ " as u128")
  else none

/-- The text of a number in double precision; none if it is too large. -/
def fractionalText? : Toml.Fractional → Option String
  | .finite negative size =>
    (Double.ofDecimal? size).map fun d => (if negative then "-" else "") ++ d.shortest.positional
  | .infinite negative => some (if negative then "-inf" else "inf")
  | .notANumber => some "NaN"

/-- What a value is called; none for a number without a value or with one too large to be told. -/
def describe? : Toml.Value → Option String
  | .text s => some ("string " ++ Text.quoted s)
  | .whole n => n.value?.bind describeInteger?
  | .fractional x => (fractionalText? x).map fun s => "floating point " ++ marked s
  | .boolean b => some ("boolean " ++ marked (if b then "true" else "false"))
  | .array _ => some "sequence"
  | .table _ | .moment _ => some "map"

/-- The reason of a fault; none where the fault is that a number cannot be told. -/
def reason? : SettingsFault → Option String
  | .unknownField key known =>
    some ("unknown field " ++ marked key ++ ", expected " ++ alternatives known)
  | .wrongKind found expected =>
    (describe? found).map fun text => "invalid type: " ++ text ++ ", expected " ++ expected

end SettingsFault

namespace Settings

def textOf : Toml.Value → Except SettingsFault String
  | .text s => .ok s
  | v => .error (.wrongKind v "a string")

def textsOf : Toml.Value → Except SettingsFault (List String)
  | .array items => items.mapM textOf
  | v => .error (.wrongKind v "a sequence")

/-- Entries in the byte order of their keys. -/
def inOrder (entries : List (String × Toml.Value)) : List (String × Toml.Value) :=
  entries.mergeSort fun a b => (Text.order a.1 b.1).isLE

def exclusionKeys : List String := ["names", "prefixes"]

/-- Overrides one list of the exclusions. -/
def setExclusion (e : Exclusions) : String × Toml.Value → Except SettingsFault Exclusions
  | ("names", v) => return { e with names := ← textsOf v }
  | ("prefixes", v) => return { e with prefixes := ← textsOf v }
  | (key, _) => .error (.unknownField key exclusionKeys)

/-- The key under which a date or a time is given where a table is expected. -/
def momentKey : String := "$__toml_private_datetime"

/-- The exclusions: a table of the two lists, or the lists themselves one after the other, of which
trailing ones may be missing and further ones do not count. -/
def exclusionsOf : Toml.Value → Except SettingsFault Exclusions
  | .table entries => (inOrder entries).foldlM setExclusion {}
  | .array items => (exclusionKeys.zip items).foldlM setExclusion {}
  | .moment _ => .error (.unknownField momentKey exclusionKeys)
  | v => .error (.wrongKind v "struct ExclusionConfig")

def keys : List String :=
  ["archive_prefix", "archive_extension", "name_prefix", "binary_extension", "release_line",
    "ecj_version", "exclusions"]

def set (s : Settings) : String × Toml.Value → Except SettingsFault Settings
  | ("archive_prefix", v) => return { s with archivePrefix := ← textOf v }
  | ("archive_extension", v) => return { s with archiveExtension := ← textOf v }
  | ("name_prefix", v) => return { s with namePrefix := ← textOf v }
  | ("binary_extension", v) => return { s with binaryExtension := ← textOf v }
  | ("release_line", v) => return { s with releaseLine := ← textOf v }
  | ("ecj_version", v) => return { s with ecjVersion := ← textOf v }
  | ("exclusions", v) => return { s with exclusions := ← exclusionsOf v }
  | (key, _) => .error (.unknownField key keys)

/-- The settings that the entries of a document give, defaults for those that they leave out. -/
def ofEntries (entries : List (String × Toml.Value)) : Except SettingsFault Settings :=
  (inOrder entries).foldlM set {}

end Settings
end BillOfMaterials
