import BillOfMaterials.Text.Utf8

/-!
# Settings

What a run takes for granted about archives and binaries. Every setting has a default, so a
settings file names only what differs.
-/
namespace BillOfMaterials

/-- Binaries that are packaged but belong to no manifest. -/
structure Exclusions where
  /-- Whole file names. -/
  names : List String := ["bootstrap.jar", "catalina-ant.jar"]
  /-- Beginnings of file names. -/
  prefixes : List String := ["tomcat-i18n"]
deriving DecidableEq, Inhabited

structure Settings where
  /-- How the name of a server archive begins. -/
  archivePrefix : String := "apache-tomee-"
  /-- The extension of a server archive, without its dot. -/
  archiveExtension : String := "zip"
  /-- The text that is removed from an archive's name to make its short name. -/
  namePrefix : String := "apache-"
  /-- The extension of a packaged binary, without its dot. -/
  binaryExtension : String := "jar"
  /-- The release line that the project's own modules carry in their file names. -/
  releaseLine : String := "8.0"
  /-- The published version that stands for the bundled compiler. -/
  ecjVersion : String := "3.22.0"
  exclusions : Exclusions := {}
deriving DecidableEq, Inhabited

/-- Whether a binary belongs to no manifest. -/
def Exclusions.excludes (e : Exclusions) (name : String) : Bool :=
  e.names.contains name || e.prefixes.any (Text.startsWith name)

def Settings.excludes (s : Settings) (name : String) : Bool := s.exclusions.excludes name

end BillOfMaterials
