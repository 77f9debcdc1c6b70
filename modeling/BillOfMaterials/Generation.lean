import BillOfMaterials.ArtifactIndex.Survey
import BillOfMaterials.Binary
import BillOfMaterials.Bom.Location
import BillOfMaterials.Bom.Template
import BillOfMaterials.FileTree.Temporary
import BillOfMaterials.Mapping
import BillOfMaterials.Selection
import BillOfMaterials.Summary

/-!
# Generation

A run has two parts. The first selects the archives, unpacks each in a temporary directory of the
tree, maps the binaries and refuses the batch if one of them is unknown. The second writes the
manifests. So a run that fails for any reason but a manifest that cannot be written leaves the tree
as it was.
-/
namespace BillOfMaterials

/-- What a run is asked to do. -/
structure Request where
  /-- The directory of the server archives. -/
  archives : Path
  repository : Path
  /-- The directory below which the manifests are written. -/
  output : Path
  /-- The template to fill in place of the built-in one. -/
  template : Option Path := none
  style : Bom.Style := .pinned
  /-- Whether to stop before anything is written. -/
  dryRun : Bool := false
deriving Inhabited

/-- Where a run makes its temporary directories: the path of the one for each archive, if one can be
made. -/
abbrev Scratch := String → Option Path

namespace Generation

def template (t : FileTree) : Option Path → Except Failure Bom.Template
  | none => .ok .builtin
  | some path =>
    match t.readText? path with
    | some text => .ok ⟨text⟩
    | none => .error (.unreadableTemplate path)

structure Setup where
  /-- The names of the archives, in order. -/
  archives : List String
  template : Bom.Template
  mapping : Mapping

/-- Looks at all that a run works with. -/
def setup (t : FileTree) (settings : Settings) (request : Request) : Logged Failure Setup := do
  if !t.isDirectory request.archives then throw (.noArchiveDirectory request.archives)
  let archives ← Selection.archives t request.archives settings
  let template ← Logged.of (template t request.template)
  let index ← ArtifactIndex.survey t request.repository settings.binaryExtension
  return ⟨archives, template, ⟨settings, index⟩⟩

/-- Unpacks the archive at a path in a temporary directory at `place`, and lists its files. -/
def contents (t : FileTree) (place : Option Path) (path : Path) :
    FileTree × Except Failure (List Path) :=
  let unpacked := place.bind fun place =>
    t.withTemporary? place fun inside => Archive.unpackFile inside path place
  match unpacked with
  | some (t', files) => (t', files.mapError (.archive path))
  | none => (t, .error .system)

def distribution (scratch : Scratch) (m : Mapping) (directory : Path) (t : FileTree)
    (archive : String) : FileTree × Logged Failure Distribution :=
  let path := directory.join (.ofString archive)
  let (t', files) := contents t (scratch archive) path
  (t', do
    Logged.note .info .generation ("extracting " ++ path.text)
    let files ← Logged.of files
    let binaries := Binary.names m.settings.binaryExtension files
    Logged.note .debug .generation (archive ++ ": " ++ toString binaries.length ++ " binaries")
    let (d, log) := m.distributionLogged archive binaries
    Logged.write log
    return d)

/-- Does work on one thing after the other, each time on the tree that the work before left, up to
the first failure. -/
def inTurn {α β : Type} (work : FileTree → α → FileTree × Logged Failure β) :
    List α → FileTree → FileTree × Logged Failure (List β)
  | [], t => (t, pure [])
  | a :: rest, t =>
    let (t', first) := work t a
    match first.outcome with
    | .error failure => (t', ⟨.error failure, first.log⟩)
    | .ok b =>
      let (t'', others) := inTurn work rest t'
      (t'', ⟨others.outcome.map (b :: ·), first.log ++ others.log⟩)

/-- What is known once everything has been looked at: the manifests, but for being written. -/
structure Plan where
  template : Bom.Template
  distributions : List Distribution

/-- The plan for distributions, if the module of every binary is known. -/
def gate (template : Bom.Template) (distributions : List Distribution) : Except Failure Plan :=
  match Distribution.shortfalls distributions with
  | [] => .ok ⟨template, distributions⟩
  | shortfalls => .error (.incomplete shortfalls)

/-- The first part of a run. -/
def plan (t : FileTree) (scratch : Scratch) (settings : Settings) (request : Request) :
    FileTree × Logged Failure Plan :=
  let ready := setup t settings request
  match ready.outcome with
  | .error failure => (t, ⟨.error failure, ready.log⟩)
  | .ok s =>
    let (t', found) := inTurn (distribution scratch s.mapping request.archives) s.archives t
    (t', do
      Logged.write ready.log
      let distributions ← found
      Logged.of (gate s.template distributions))

def writeManifest (template : Bom.Template) (style : Bom.Style) (output : Path) (t : FileTree)
    (d : Distribution) : FileTree × Logged Failure Path :=
  let path := Bom.path output d
  match t.writeWithDirectories path (template.fill style d).toUTF8 with
  | (t', .ok ()) => (t', do Logged.note .info .manifest ("wrote " ++ path.text); return path)
  | (t', .error _) => (t', throw (.unwrittenManifest path))

/-- The second part of a run. -/
def execute (t : FileTree) (request : Request) (plan : Plan) : FileTree × Logged Failure Summary :=
  if request.dryRun then
    (t, do
      Logged.note .info .generation
        ("dry run: skipping " ++ toString plan.distributions.length ++ " manifest(s)")
      return ⟨plan.distributions, [], true⟩)
  else
    let (t', written) :=
      inTurn (writeManifest plan.template request.style request.output) plan.distributions t
    (t', do return ⟨plan.distributions, ← written, false⟩)

/-- A whole run. -/
def runIn (t : FileTree) (scratch : Scratch) (settings : Settings) (request : Request) :
    FileTree × Logged Failure Summary :=
  let (t', planned) := plan t scratch settings request
  match planned.outcome with
  | .error failure => (t', ⟨.error failure, planned.log⟩)
  | .ok p =>
    let (t'', result) := execute t' request p
    (t'', ⟨result.outcome, planned.log ++ result.log⟩)

/-- A run that makes its temporary directories just below the root, or none if `hasScratch` is
false. -/
def run (t : FileTree) (hasScratch : Bool) (settings : Settings) (request : Request) :
    FileTree × Logged Failure Summary :=
  runIn t (fun _ => if hasScratch then some t.unusedPath else none) settings request

end Generation
end BillOfMaterials
