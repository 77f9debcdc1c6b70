import BillOfMaterials.CommandLine.Arguments
import BillOfMaterials.Settings.Load

/-!
# The program

From arguments and a file tree to what is printed, the exit code, and the tree afterwards. The summary
goes to the output, the log and the reason of a failure to the other stream; a program that fails
prints no summary.
-/
namespace BillOfMaterials

/-- What a program leaves behind. -/
structure ProgramResult where
  tree : FileTree
  exitCode : Nat
  output : String
  /-- The log, and the reason of a failure. -/
  complaints : String

/-- Why a program fails once its arguments are read. -/
inductive ProgramFailure where
  | settings (error : LoadError)
  | generation (failure : Failure)

def ProgramFailure.message : ProgramFailure → String
  | .settings error => error.message
  | .generation failure => failure.message

namespace Program

def versionText : String := "bomgen 0.3.0\n"

def helpText : String :=
  "Generate one BOM per TomEE server distribution.\n\n" ++
  "Usage: bomgen [OPTIONS]\n\n" ++
  "Options:\n" ++
  "      --dists <DIR>        Directory holding the distribution archives\n" ++
  "  -r, --repository <DIR>   Local Maven repository [default: ~/.m2/repository]\n" ++
  "  -o, --output <DIR>       Directory the BOMs are written under\n" ++
  "  -t, --template <FILE>    POM template to use instead of the built-in one\n" ++
  "  -c, --config <FILE>      Configuration file (bomgen.toml)\n" ++
  "      --style <STYLE>      Dependency rendering style [possible values: bom, managed]\n" ++
  "      --dry-run            Reconcile and verify without writing any BOM\n" ++
  "      --json               Print the run report as JSON\n" ++
  "  -v, --verbose...         Increase log verbosity (repeatable: -v, -vv, -vvv)\n" ++
  "  -q, --quiet              Only log errors\n" ++
  "  -h, --help               Print help\n" ++
  "  -V, --version            Print version\n"

/-- What is printed for arguments that ask for no run. -/
def interruptionText : Interruption → String
  | .unknownArgument => "error: unexpected argument found\n"
  | .tooManyValues => "error: unexpected value for a flag found\n"
  | .invalidValue => "error: a value is missing or invalid\n"
  | .conflict => "error: an argument cannot be used with another one, or multiple times\n"
  | .help => helpText
  | .version => versionText

/-- Does the work that arguments ask for. -/
def work (t : FileTree) (hasScratch : Bool) (home : Option Path) (a : Arguments) :
    FileTree × Logged ProgramFailure Summary :=
  let settings := Settings.load t a.settings
  match settings.outcome with
  | .error error => (t, ⟨.error (.settings error), settings.log⟩)
  | .ok s =>
    let (t', result) := Generation.run t hasScratch s (a.toRequest home)
    (t', ⟨result.outcome.mapError .generation, settings.log ++ result.log⟩)

def output (a : Arguments) (s : Summary) : String :=
  if a.json then s.toJson.render ++ "\n"
  else if a.quiet then ""
  else s.toText ++ "\n"

def logText (level : LogLevel) (log : Log) : String :=
  String.join ((log.filter (LogRecord.isShown level)).map LogRecord.line)

/-- Does the work and tells about it. -/
def execute (t : FileTree) (hasScratch : Bool) (home : Option Path) (a : Arguments) :
    ProgramResult :=
  let (t', result) := work t hasScratch home a
  let log := logText a.logLevel result.log
  match result.outcome with
  | .ok summary => ⟨t', 0, output a summary, log⟩
  | .error failure => ⟨t', 1, "", log ++ failure.message ++ "\n"⟩

/-- Runs the program with the arguments that follow its name. -/
def run (t : FileTree) (hasScratch : Bool) (home : Option Path) (arguments : List String) :
    ProgramResult :=
  match Arguments.read arguments with
  | .ok a => execute t hasScratch home a
  | .error why =>
    if why.exitCode = 0 then ⟨t, 0, interruptionText why, ""⟩
    else ⟨t, why.exitCode, "", interruptionText why⟩

end Program
end BillOfMaterials
