import BillOfMaterials.Toml.Moment
import BillOfMaterials.Toml.QuotedText
import BillOfMaterials.Toml.Table

/-!
# Reading TOML documents

A document is a sequence of lines, each a header, a key with its value, or nothing, with a comment or
without. Arrays and inline tables may span lines and may end in a comma.
-/
namespace BillOfMaterials.Toml

/-- The characters that separate on a line. -/
def isBlank (c : Char) : Bool := c = ' ' || c = '\t'

/-- A text without the blanks at its beginning that stay on the line. -/
def skipBlanks (s : List Char) : List Char := s.dropWhile isBlank

/-- What follows blanks, line breaks and comments. The flag says whether a comment is open. A character
that no comment may hold leaves nothing to read. -/
def skipLines : Bool → List Char → Option (List Char)
  | _, [] => some []
  | _, '\n' :: rest => skipLines false rest
  | _, '\r' :: '\n' :: rest => skipLines false rest
  | true, c :: rest => if QuotedText.isPlain c then skipLines true rest else none
  | false, ' ' :: rest | false, '\t' :: rest => skipLines false rest
  | false, '#' :: rest => skipLines true rest
  | false, s => some s

/-- What follows on the next line; before it there may be a comment. -/
def skipLineEnd : Bool → List Char → Option (List Char)
  | _, [] => some []
  | _, '\n' :: rest => some rest
  | _, '\r' :: '\n' :: rest => some rest
  | true, c :: rest => if QuotedText.isPlain c then skipLineEnd true rest else none
  | false, ' ' :: rest | false, '\t' :: rest => skipLineEnd false rest
  | false, '#' :: rest => skipLineEnd true rest
  | false, _ => none

/-! ## Keys -/

/-- The characters of a key without quotes. -/
def isKeyChar (c : Char) : Bool := c.isAlphanum || c = '_' || c = '-'

def keyPart : Step String
  | '"' :: rest => QuotedText.line ('"' :: rest)
  | '\'' :: rest => QuotedText.line ('\'' :: rest)
  | s =>
    match s.takeWhile isKeyChar with
    | [] => none
    | name => some (String.ofList name, s.dropWhile isKeyChar)

/-- The parts of a key with dots between them, and the blanks after it. The number is how many parts
there may be. -/
def keyPath : Nat → Step (List String)
  | 0, _ => none
  | room + 1, s => do
    let (part, rest) ← keyPart (skipBlanks s)
    match skipBlanks rest with
    | '.' :: rest =>
      let (parts, rest) ← keyPath room rest
      some (part :: parts, rest)
    | rest => some ([part], rest)

/-- How many parts a key may have, and how deep arrays and inline tables may be nested. -/
def maxDepth : Nat := 80

def key : Step (List String) := keyPath maxDepth

/-! ## Values -/

/-- The characters of a value without quotes: all but blanks, line breaks, and those that separate or
enclose values or begin a comment. -/
def isScalarChar (c : Char) : Bool :=
  c ∉ [' ', '\t', '\r', '\n', '#', '=', ',', '[', ']', '\x7b', '\x7d']

def scalarOf? (run : List Char) : Option Value :=
  ((Scalar.boolean? run).map Value.boolean).or <|
    ((Scalar.whole? run).map Value.whole).or <|
      ((Scalar.fractional? run).map Value.fractional).or <|
        if Moment.isMoment run then some (.moment (String.ofList run)) else none

/-- Whether a character goes on with a value without quotes after blanks. -/
def resumes (c : Char) : Bool := isScalarChar c && c ∉ ['.', '"', '\'']

/-- The characters of a value without quotes at the beginning of a text, with the blanks among them. -/
def scalarRun : List Char → List Char
  | [] => []
  | c :: rest =>
    if isScalarChar c || (isBlank c && (skipBlanks rest).head?.any resumes) then c :: scalarRun rest
    else []

def scalar : Step Value := fun s =>
  let run := scalarRun s
  (scalarOf? run).map (·, s.drop run.length)

mutual

/-- A value. The first number bounds the work, the second is how many more brackets may be opened. -/
def value : Nat → Nat → Step Value
  | 0, _, _ => none
  | fuel + 1, depth, s =>
    match s, depth with
    | '[' :: _, 0 | '\x7b' :: _, 0 => none
    | '[' :: rest, depth + 1 => (items fuel depth rest).map fun (vs, rest) => (.array vs, rest)
    | '\x7b' :: rest, depth + 1 =>
      (members fuel depth [] rest).map fun (entries, rest) => (.table (valuesOf entries), rest)
    | '"' :: _, _ | '\'' :: _, _ => (QuotedText.any s).map fun (text, rest) => (.text text, rest)
    | _, _ => scalar s

/-- The items of an array up to its bracket. -/
def items : Nat → Nat → Step (List Value)
  | 0, _, _ => none
  | fuel + 1, depth, s => do
    match ← skipLines false s with
    | ']' :: rest => some ([], rest)
    | s =>
      let (v, rest) ← value fuel depth s
      match ← skipLines false rest with
      | ',' :: rest =>
        let (vs, rest) ← items fuel depth rest
        some (v :: vs, rest)
      | ']' :: rest => some ([v], rest)
      | _ => none

/-- The entries of an inline table up to its bracket, added to those before them. -/
def members : Nat → Nat → Entries → Step Entries
  | 0, _, _, _ => none
  | fuel + 1, depth, entries, s => do
    match ← skipLines false s with
    | '\x7d' :: rest => some (entries, rest)
    | s =>
      let (path, rest) ← key s
      match ← skipLines false rest with
      | '=' :: rest =>
        let (v, rest) ← value fuel depth (← skipLines false rest)
        let entries ← Entries.assign v path entries
        match ← skipLines false rest with
        | ',' :: rest => members fuel depth entries rest
        | '\x7d' :: rest => some (entries, rest)
        | _ => none
      | _ => none

end

/-! ## Lines -/

/-- What has been read of a document: all tables, and the path of the last header. -/
structure Progress where
  root : Entries
  header : List String

/-- A header in single or double brackets: what it does to the tables, and its path. -/
def header : Step (Bool × List String)
  | '[' :: '[' :: rest => do
    let (path, rest) ← key rest
    match rest with
    | ']' :: ']' :: rest => some ((true, path), rest)
    | _ => none
  | '[' :: rest => do
    let (path, rest) ← key rest
    match rest with
    | ']' :: rest => some ((false, path), rest)
    | _ => none
  | _ => none

/-- Takes a header in. -/
def Progress.open? (p : Progress) (isArray : Bool) (path : List String) : Option Progress := do
  let last ← path.getLast?
  let add := if isArray then Entries.append last else Entries.declare last
  let root ← Entries.within add path.dropLast p.root
  some ⟨root, path⟩

/-- Takes a key and its value in, below the last header. -/
def Progress.assign? (p : Progress) (path : List String) (v : Value) : Option Progress := do
  let root ← Entries.within (Entries.assign v path) p.header p.root
  some { p with root }

/-- Reads lines. The number bounds how many there can be. -/
def lines : Nat → Progress → List Char → Option Progress
  | 0, _, _ => none
  | fuel + 1, p, s => do
    match ← skipLines false s with
    | [] => some p
    | '[' :: rest =>
      let ((isArray, path), rest) ← header ('[' :: rest)
      let p ← p.open? isArray path
      lines fuel p (← skipLineEnd false rest)
    | s =>
      let (path, rest) ← key s
      match rest with
      | '=' :: rest =>
        let (v, rest) ← value (rest.length + 1) maxDepth (skipBlanks rest)
        let p ← p.assign? path v
        lines fuel p (← skipLineEnd false rest)
      | _ => none

/-- The entries of the table that a document holds. A byte order mark may stand before it. -/
def read? (document : String) : Option (List (String × Value)) :=
  let s := match document.toList with
    | '\uFEFF' :: rest => rest
    | s => s
  (lines (s.length + 1) ⟨[], []⟩ s).map fun p => valuesOf p.root

end BillOfMaterials.Toml
