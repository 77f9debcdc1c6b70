import BillOfMaterials.FileTree

/-!
# Following paths

A path is followed step by step from the root or from the working directory. Links on the way are
followed, at most forty of them; a link at the end is followed or not, as the question asks.
-/
namespace BillOfMaterials

/-- Why a file could not be reached or changed. -/
inductive FileError where
  | notFound
  | notDirectory
  | isDirectory
  | alreadyExists
  | tooManyLinks
  /-- The path holds a zero byte, or it or a name in it is too long. -/
  | badName
deriving DecidableEq

/-- Where a path leads. -/
inductive Place where
  /-- To an entry of the tree. -/
  | present (loc : Location)
  /-- To a name that a directory does not hold. -/
  | absent (directory : Location) (name : Bytes)
deriving DecidableEq

namespace FileTree

/-- How many links one path may go through. -/
def maxLinks : Nat := 40

def maxName : Nat := 255

def maxPath : Nat := 4095

/-- Whether a path may be asked for: it is not too long and holds no zero byte. -/
def isUsable (p : Path) : Bool := p.spelling.length ≤ maxPath && !p.spelling.contains 0

/-- Follows steps from a directory up to the first link that is to be followed; `onLink` goes on from
there. `final` says whether a link at the end is followed, too. -/
def followTo (t : FileTree) (final : Bool)
    (onLink : Location → List Bytes → Except FileError Place) :
    Location → List Bytes → Except FileError Place
  | loc, [] => .ok (.present loc)
  | loc, step :: rest =>
    if step = [Path.dot] then t.followTo final onLink loc rest
    else if step = [Path.dot, Path.dot] then t.followTo final onLink loc.dropLast rest
    else if maxName < step.length then .error .badName
    else
      match t.at? (loc ++ [step]) with
      | none => if rest = [] then .ok (.absent loc step) else .error .notFound
      | some .directory => t.followTo final onLink (loc ++ [step]) rest
      | some (.file _) => if rest = [] then .ok (.present (loc ++ [step])) else .error .notDirectory
      | some (.link target) =>
        if rest = [] ∧ final = false then .ok (.present (loc ++ [step]))
        else onLink (if target.isAbsolute then [] else loc) (target.steps ++ rest)

/-- Follows steps from a directory through at most `links` links. -/
def follow (t : FileTree) (final : Bool) : Nat → Location → List Bytes → Except FileError Place
  | 0 => t.followTo final fun _ _ => .error .tooManyLinks
  | links + 1 => t.followTo final (t.follow final links)

/-- The directory that a path starts from. -/
def start (t : FileTree) (p : Path) : Location := if p.isAbsolute then [] else t.workingDirectory

/-- Where a path leads. -/
def locate (t : FileTree) (final : Bool) (p : Path) : Except FileError Place :=
  if p.spelling = [] then .error .notFound
  else if !isUsable p then .error .badName
  else t.follow final maxLinks (t.start p) p.steps

/-- What a path leads to, links followed. -/
def entry? (t : FileTree) (p : Path) : Option (Location × FileEntry) :=
  match t.locate true p with
  | .ok (.present loc) => (t.at? loc).map (loc, ·)
  | _ => none

def directory? (t : FileTree) (p : Path) : Option Location :=
  match t.entry? p with
  | some (loc, .directory) => some loc
  | _ => none

def isDirectory (t : FileTree) (p : Path) : Bool := (t.directory? p).isSome

def read (t : FileTree) (p : Path) : Except FileError ByteArray := do
  match ← t.locate true p with
  | .absent _ _ => throw .notFound
  | .present loc =>
    match t.at? loc with
    | some (.file content) => pure content
    | _ => throw .isDirectory

/-- The text of the file that a path leads to, if it is well-formed. -/
def readText? (t : FileTree) (p : Path) : Option String :=
  match t.read p with
  | .ok content => Text.ofBytes? content.data.toList
  | .error _ => none

/-- What the child of a directory is once links are followed. -/
def child? (t : FileTree) (directory : Location) (name : Bytes) : Option (Location × FileEntry) :=
  match t.follow true maxLinks directory [name] with
  | .ok (.present loc) => (t.at? loc).map (loc, ·)
  | _ => none

end FileTree
end BillOfMaterials
