import BillOfMaterials.Bom.Template
import BillOfMaterials.Generation

/-!
# Arguments of the command line

The arguments are options with a value and switches. An option takes its value from the next argument
or attached to itself; short switches may be joined behind one hyphen. Options are given at most once,
in any order. A fault is reported where it is met, and a missing or bad value at the next option or
switch, or at the end.
-/
namespace BillOfMaterials

/-- What the arguments ask for. -/
structure Arguments where
  archives : Path := .ofString "tomee/apache-tomee/target"
  /-- The local repository, if it is not the one in the home directory. -/
  repository : Option Path := none
  output : Path := .ofString "boms"
  template : Option Path := none
  settings : Option Path := none
  style : Bom.Style := .pinned
  dryRun : Bool := false
  json : Bool := false
  /-- How often more log output was asked for, up to 255. -/
  verbosity : Nat := 0
  quiet : Bool := false
deriving Inhabited

/-- Why arguments ask for no run. -/
inductive Interruption where
  | unknownArgument
  /-- A switch with a value. -/
  | tooManyValues
  /-- A missing value, or one that is not among those allowed. -/
  | invalidValue
  /-- An argument that is given twice, or does not go with another one. -/
  | conflict
  | help
  | version
deriving DecidableEq

/-- Help and version are asked for; all else is a fault. -/
def Interruption.exitCode : Interruption → Nat
  | .help | .version => 0
  | _ => 2

namespace Arguments

inductive ValueOption where
  | archives | repository | output | template | settings | style
deriving DecidableEq

inductive Switch where
  | dryRun | json | verbose | quiet | help | version
deriving DecidableEq

inductive Key where
  | option (o : ValueOption)
  | switch (s : Switch)
deriving DecidableEq

def long? : String → Option Key
  | "dists" => some (.option .archives)
  | "repository" => some (.option .repository)
  | "output" => some (.option .output)
  | "template" => some (.option .template)
  | "config" => some (.option .settings)
  | "style" => some (.option .style)
  | "dry-run" => some (.switch .dryRun)
  | "json" => some (.switch .json)
  | "verbose" => some (.switch .verbose)
  | "quiet" => some (.switch .quiet)
  | "help" => some (.switch .help)
  | "version" => some (.switch .version)
  | _ => none

def short? : Char → Option Key
  | 'r' => some (.option .repository)
  | 'o' => some (.option .output)
  | 't' => some (.option .template)
  | 'c' => some (.option .settings)
  | 'v' => some (.switch .verbose)
  | 'q' => some (.switch .quiet)
  | 'h' => some (.switch .help)
  | 'V' => some (.switch .version)
  | _ => none

def style? : String → Option Bom.Style
  | "bom" => some .pinned
  | "managed" => some .managed
  | _ => none

structure Given where
  values : List (ValueOption × String) := []
  switches : List Switch := []
  /-- An option that waits for its value, or whose value has not been looked at yet. -/
  pending : Option (ValueOption × Option String) := none

namespace Given

def take (g : Given) (o : ValueOption) (value : String) : Except Interruption Given :=
  if (g.values.lookup o).isSome then .error .conflict
  else if o = .style ∧ style? value = none then .error .invalidValue
  else .ok { g with values := g.values ++ [(o, value)] }

/-- Takes the pending option, if there is one. -/
def settle (g : Given) : Except Interruption Given :=
  match g.pending with
  | none => .ok g
  | some (_, none) => .error .invalidValue
  | some (o, some value) => { g with pending := none }.take o value

/-- Takes a switch; only that for more log output may be repeated. -/
def turnOn (g : Given) (s : Switch) : Except Interruption Given := do
  let g ← g.settle
  match s with
  | .help => throw .help
  | .version => throw .version
  | .verbose => return { g with switches := g.switches ++ [s] }
  | _ =>
    if g.switches.contains s then throw .conflict
    else return { g with switches := g.switches ++ [s] }

def attach (g : Given) (o : ValueOption) (value : String) : Except Interruption Given := do
  let g ← g.settle
  g.take o value

/-- Begins an option whose value is to follow. -/
def await (g : Given) (o : ValueOption) : Except Interruption Given := do
  let g ← g.settle
  return { g with pending := some (o, none) }

/-- Takes an argument that names no option: the value of the pending one. -/
def takePlain (g : Given) (value : String) : Except Interruption Given :=
  match g.pending with
  | some (o, none) => .ok { g with pending := some (o, some value) }
  | _ => .error .unknownArgument

/-- Takes an argument with a long name, after its hyphens. -/
def takeLong (g : Given) (argument : List Char) : Except Interruption Given :=
  let name := argument.takeWhile (· ≠ '=')
  match long? (String.ofList name), argument.drop name.length with
  | none, _ => .error .unknownArgument
  | some (.switch s), [] => g.turnOn s
  | some (.switch _), _ :: _ => .error .tooManyValues
  | some (.option o), [] => g.await o
  | some (.option o), _ :: value => g.attach o (String.ofList value)

/-- Takes short names joined behind one hyphen. What follows the name of an option is its value. -/
def takeShort (g : Given) : List Char → Except Interruption Given
  | [] => .ok g
  | c :: rest =>
    match short? c, rest with
    | none, _ => .error .unknownArgument
    | some (.switch s), rest => do (← g.turnOn s).takeShort rest
    | some (.option o), [] => g.await o
    | some (.option o), '=' :: value => g.attach o (String.ofList value)
    | some (.option o), value => g.attach o (String.ofList value)

def takeArgument (g : Given) (argument : String) : Except Interruption Given :=
  match argument.toList with
  | '-' :: '-' :: name => g.takeLong name
  | '-' :: c :: rest => g.takeShort (c :: rest)
  | _ => g.takePlain argument

/-- Takes all arguments. Nothing may follow two hyphens that stand alone. -/
def takeAll (g : Given) : List String → Except Interruption Given
  | [] => g.settle
  | argument :: rest =>
    if argument = "--" then if rest = [] then g.settle else .error .unknownArgument
    else do (← g.takeArgument argument).takeAll rest

def count (g : Given) (s : Switch) : Nat := g.switches.count s

/-- The value of an option as a path. -/
def path? (g : Given) (o : ValueOption) : Option Path := (g.values.lookup o).map Path.ofString

/-- What was given, with defaults for the rest. -/
def toArguments (g : Given) : Arguments :=
  let defaults : Arguments := {}
  { archives := (g.path? .archives).getD defaults.archives
    repository := g.path? .repository
    output := (g.path? .output).getD defaults.output
    template := g.path? .template
    settings := g.path? .settings
    style := ((g.values.lookup .style).bind style?).getD defaults.style
    dryRun := g.switches.contains .dryRun
    json := g.switches.contains .json
    verbosity := min (g.count .verbose) 255
    quiet := g.switches.contains .quiet }

end Given

/-- Reads the arguments that follow the name of the program. -/
def read (arguments : List String) : Except Interruption Arguments := do
  let a := (← Given.takeAll {} arguments).toArguments
  if a.quiet ∧ 0 < a.verbosity then throw .conflict
  return a

/-- Down to which level the log is shown. -/
def logLevel (a : Arguments) : LogLevel :=
  if a.quiet then .error
  else match a.verbosity with
    | 0 => .warn
    | 1 => .info
    | 2 => .debug
    | _ => .trace

/-- The local repository of a home directory, or of the working directory where the home directory
is not known or cannot be named. -/
def defaultRepository (home : Option Path) : Path :=
  let below := Path.ofString ".m2/repository"
  match home with
  | some home => if home.isText ∧ home.spelling ≠ [] then home.join below else below
  | none => below

def toRequest (a : Arguments) (home : Option Path) : Request where
  archives := a.archives
  repository := a.repository.getD (defaultRepository home)
  output := a.output
  template := a.template
  style := a.style
  dryRun := a.dryRun

end Arguments
end BillOfMaterials
