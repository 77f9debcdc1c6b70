import BillOfMaterials.FileTree.Lookup

/-!
# Making directories and files

Each change puts at most one entry into the tree. Making a directory with its ancestors is a sequence
of such changes, and keeps those that succeeded when a later one fails.
-/
namespace BillOfMaterials.FileTree

/-- Makes the directory that a path names, in a directory that exists. The name itself is not
followed, and separators after it do not count. -/
def makeDirectory (t : FileTree) (p : Path) : Except FileError FileTree := do
  if p.spelling = [] then throw .notFound
  if !isUsable p then throw .badName
  let steps := p.pieces.filter (· ≠ [])
  match steps.getLast? with
  | none => throw .alreadyExists
  | some name =>
    match ← t.follow true maxLinks (t.start p) (steps.dropLast ++ [[Path.dot]]) with
    | .absent _ _ => throw .notFound
    | .present parent =>
      if name = [Path.dot] ∨ name = [Path.dot, Path.dot] then throw .alreadyExists
      if maxName < name.length then throw .badName
      match t.at? (parent ++ [name]) with
      | some _ => throw .alreadyExists
      | none => pure (t.put (parent ++ [name]) .directory)

/-- A path and its ancestors, the path itself first. The root, and the empty path, are no part of
it. -/
def ancestors (p : Path) : List Path :=
  let isProper (cs : List Path.Component) : Bool := cs ≠ [] ∧ cs ≠ [.root]
  let above := (List.range p.components.length).reverse.map p.components.take
  if isProper p.components then p :: (above.filter isProper).map Path.ofComponents else []

/-- Makes the first of several directories, after those that it lies in: the others are its
ancestors, the nearest first. -/
def makeAll (t : FileTree) : List Path → FileTree × Except FileError Unit
  | [] => (t, .ok ())
  | p :: above =>
    match t.makeDirectory p with
    | .ok made => (made, .ok ())
    | .error .notFound =>
      match t.makeAll above with
      | (t', .error e) => (t', .error e)
      | (t', .ok ()) =>
        match t'.makeDirectory p with
        | .ok made => (made, .ok ())
        | .error e => if e = .alreadyExists ∧ t'.isDirectory p then (t', .ok ()) else (t', .error e)
    | .error e => if e = .alreadyExists ∧ t.isDirectory p then (t, .ok ()) else (t, .error e)

/-- Makes the directory that a path names, with all its ancestors. -/
def makeDirectories (t : FileTree) (p : Path) : FileTree × Except FileError Unit :=
  t.makeAll (ancestors p)

/-- Writes a file, in place of the file that the path leads to, or anew where it leads to nothing. -/
def write (t : FileTree) (p : Path) (content : ByteArray) : Except FileError FileTree := do
  match ← t.locate true p with
  | .absent directory name => pure (t.put (directory ++ [name]) (.file content))
  | .present loc =>
    match t.at? loc with
    | some (.file _) => pure (t.put loc (.file content))
    | _ => throw .isDirectory

/-- Puts a symbolic link at a path that leads to nothing. -/
def makeLink (t : FileTree) (p target : Path) : Except FileError FileTree := do
  match ← t.locate false p with
  | .absent directory name => pure (t.put (directory ++ [name]) (.link target))
  | .present _ => throw .alreadyExists

/-- Writes a file after making the directories that it lies in. -/
def writeWithDirectories (t : FileTree) (p : Path) (content : ByteArray) :
    FileTree × Except FileError Unit :=
  match p.parent? with
  | none => finish t
  | some parent =>
    match t.makeDirectories parent with
    | (t', .ok ()) => finish t'
    | (t', .error e) => (t', .error e)
where
  finish (t : FileTree) : FileTree × Except FileError Unit :=
    match t.write p content with
    | .ok written => (written, .ok ())
    | .error e => (t, .error e)

end BillOfMaterials.FileTree
