import BillOfMaterials.Coordinate
import BillOfMaterials.Settings
import BillOfMaterials.Text.Marker

/-!
# Naming rules

Many binaries of the server are packaged under another name than the one they are published under,
or without a version. The rules here say which module such a file is, from its name alone. An exact
name goes before the two families, whose names begin differently.
-/
namespace BillOfMaterials

inductive NamingRule where
  /-- The file has one of the listed names. -/
  | exactName
  /-- The file is the bundled compiler. -/
  | eclipseCompiler
  /-- The file is a module of the project. -/
  | projectModule
deriving DecidableEq, Inhabited

namespace NamingRule

def label : NamingRule → String
  | .exactName => "ExactName"
  | .eclipseCompiler => "EclipseCompiler"
  | .projectModule => "ProjectModule"

def platformModule (artifact : String) : Coordinate :=
  ⟨"org.apache.tomcat", artifact, .platform⟩

/-- A module of the project. -/
def projectModuleNamed (artifact : String) : Coordinate :=
  ⟨"org.apache.tomee", artifact, .project⟩

/-- The listed names with their modules. -/
def exactNames : List (String × Coordinate) := [
  ("commons-daemon.jar", ⟨"commons-daemon", "commons-daemon", .fixed "1.1.0"⟩),
  ("tomcat-juli.jar", projectModuleNamed "tomee-juli"),
  ("openejb-javaagent.jar", projectModuleNamed "openejb-javaagent"),
  ("catalina-ha.jar", platformModule "tomcat-catalina-ha"),
  ("catalina-storeconfig.jar", platformModule "tomcat-storeconfig"),
  ("catalina-tribes.jar", platformModule "tomcat-tribes"),
  ("catalina-ssi.jar", platformModule "tomcat-ssi"),
  ("catalina.jar", platformModule "tomcat-catalina"),
  ("el-api.jar", platformModule "tomcat-el-api"),
  ("jasper-el.jar", platformModule "tomcat-jasper-el"),
  ("jasper.jar", platformModule "tomcat-jasper"),
  ("jaspic-api.jar", platformModule "tomcat-jaspic-api"),
  ("servlet-api.jar", platformModule "tomcat-servlet-api"),
  ("websocket-api.jar", platformModule "tomcat-websocket-api"),
  ("jsp-api.jar", platformModule "tomcat-jsp-api"),
  ("tomcat-coyote.jar", platformModule "tomcat-coyote"),
  ("tomcat-dbcp.jar", platformModule "tomcat-dbcp"),
  ("tomcat-api.jar", platformModule "tomcat-api"),
  ("tomcat-websocket.jar", platformModule "tomcat-websocket"),
  ("tomcat-util.jar", platformModule "tomcat-util"),
  ("tomcat-util-scan.jar", platformModule "tomcat-util-scan"),
  ("tomcat-jni.jar", platformModule "tomcat-jni"),
  ("tomcat-jdbc.jar", platformModule "tomcat-jdbc")]

def byExactName (name : String) : Option Coordinate := exactNames.lookup name

/-- The bundled compiler stands for one published version, whatever its file name says. -/
def byCompilerFamily (settings : Settings) (name : String) : Option Coordinate :=
  if Text.startsWith name "ecj-" then
    some ⟨"org.eclipse.jdt", "ecj", .fixed settings.ecjVersion⟩
  else none

/-- The artifact name of a project module: the file name up to the release line, or without its
extension when it carries no release line. -/
def projectArtifact (settings : Settings) (name : String) : String :=
  match Text.cutAt ('-' :: settings.releaseLine.toList) name.toList with
  | some (before, _) => String.ofList before
  | none =>
    match Text.dropEnd? ('.' :: settings.binaryExtension.toList) name.toList with
    | some stem => String.ofList stem
    | none => name

/-- Files of the project begin with the name of one of its two parts. -/
def byProjectFamily (settings : Settings) (name : String) : Option Coordinate :=
  if Text.startsWith name "openejb-" || Text.startsWith name "tomee-" then
    some (projectModuleNamed (projectArtifact settings name))
  else none

/-- The module that the rules give to a file name, and the rule that gave it. -/
def ruling? (settings : Settings) (name : String) : Option (Coordinate × NamingRule) :=
  ((byExactName name).map (·, .exactName)).or <|
    ((byCompilerFamily settings name).map (·, .eclipseCompiler)).or <|
      (byProjectFamily settings name).map (·, .projectModule)

end NamingRule
end BillOfMaterials
