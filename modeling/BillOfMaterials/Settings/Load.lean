import BillOfMaterials.FileTree.Lookup
import BillOfMaterials.Log
import BillOfMaterials.Settings.Document
import BillOfMaterials.Toml.Document

/-!
# Loading settings

Settings come from a file, if one is given. A file that cannot be read, and one that holds no settings,
are faults of their own; without a file the defaults hold.
-/
namespace BillOfMaterials

/-- Why settings cannot be had from a text. -/
inductive SettingsError where
  /-- The text is no document of the format. -/
  | malformed
  /-- The entries are no settings. -/
  | rejected (fault : SettingsFault)

def SettingsError.reason? : SettingsError → Option String
  | .malformed => none
  | .rejected fault => fault.reason?

inductive LoadError where
  /-- The file cannot be read as text. -/
  | unreadable (path : Path)
  /-- The file holds no settings. -/
  | invalid (path : Path) (error : SettingsError)

def LoadError.message : LoadError → String
  | .unreadable path => "failed to read configuration at " ++ path.text
  | .invalid path error =>
    "invalid configuration at " ++ path.text ++ ": " ++ error.reason?.getD "malformed document"

namespace Settings

def parse (document : String) : Except SettingsError Settings :=
  match Toml.read? document with
  | none => .error .malformed
  | some entries => (ofEntries entries).mapError .rejected

/-- The settings of the file at a path, or the defaults. -/
def load (t : FileTree) : Option Path → Logged LoadError Settings
  | none => do
    Logged.note .debug .settings "no configuration file given; using defaults"
    return {}
  | some path =>
    match t.readText? path with
    | none => throw (.unreadable path)
    | some document => Logged.of ((parse document).mapError (.invalid path))

end Settings
end BillOfMaterials
