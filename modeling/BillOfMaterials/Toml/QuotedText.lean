import BillOfMaterials.Toml.Scalar

/-!
# Quoted texts

Double quotes enclose text with escapes, single quotes text as it stands; each kind has a form of three
quotes that may span lines. A line break right after three quotes does not belong to the text.
-/
namespace BillOfMaterials.Toml.QuotedText

/-- The characters that may stand for themselves: no control character but the tab. -/
def isPlain (c : Char) : Bool := c = '\t' || (0x20 ≤ c.toNat && c.toNat ≠ 0x7F)

def escape? : Char → Option Char
  | 'b' => some '\x08'
  | 't' => some '\t'
  | 'n' => some '\n'
  | 'f' => some '\x0c'
  | 'r' => some '\r'
  | 'e' => some '\x1b'
  | '"' => some '"'
  | '\\' => some '\\'
  | _ => none

/-- The character with a code point of `width` hexadecimal digits. -/
def codePoint (width : Nat) : Step Char := fun s => do
  guard (width ≤ s.length)
  let digits ← (s.take width).mapM (Scalar.digit? 16)
  let code := Scalar.ofDigits 16 digits
  guard (code < 0xD800 ∨ (0xDFFF < code ∧ code ≤ 0x10FFFF))
  some (Char.ofNat code, s.drop width)

/-- The character of an escape, after the backslash. -/
def escape : Step Char
  | 'x' :: rest => codePoint 2 rest
  | 'u' :: rest => codePoint 4 rest
  | 'U' :: rest => codePoint 8 rest
  | c :: rest => (escape? c).map (·, rest)
  | [] => none

/-- What follows a line break. -/
def afterLineBreak? : List Char → Option (List Char)
  | '\n' :: rest => some rest
  | '\r' :: '\n' :: rest => some rest
  | _ => none

/-- A text without the line break at its beginning. -/
def dropLineBreak (s : List Char) : List Char := (afterLineBreak? s).getD s

/-- A text without the blanks and line breaks at its beginning. -/
def dropBlanks : List Char → List Char
  | ' ' :: rest | '\t' :: rest | '\n' :: rest | '\r' :: '\n' :: rest => dropBlanks rest
  | s => s

/-- What follows a backslash that ends a line: all blanks and line breaks are passed over. -/
def afterFold? (s : List Char) : Option (List Char) :=
  (afterLineBreak? (s.dropWhile fun c => c = ' ' || c = '\t')).map dropBlanks

/-- Puts a character before the text that a step reads. -/
def before (c : Char) (rest : Option (List Char × List Char)) : Option (List Char × List Char) :=
  rest.map fun (s, rest) => (c :: s, rest)

/-- The text up to the closing double quote of a line. -/
def basicLine : Nat → Step (List Char)
  | 0, _ | _, [] => none
  | _ + 1, '"' :: rest => some ([], rest)
  | fuel + 1, '\\' :: rest => (escape rest).bind fun (c, rest) => before c (basicLine fuel rest)
  | fuel + 1, c :: rest => if isPlain c then before c (basicLine fuel rest) else none

/-- The text up to the closing single quote of a line. -/
def literalLine : Step (List Char)
  | [] => none
  | '\'' :: rest => some ([], rest)
  | c :: rest => if isPlain c then before c (literalLine rest) else none

/-- The end of a text of several lines: three quotes, of which up to two more before them belong to
the text. -/
def closing? (quote : Char) (s : List Char) : Option (List Char × List Char) :=
  let run := ((s.take 5).takeWhile (· = quote)).length
  if 3 ≤ run then some (List.replicate (run - 3) quote, s.drop run) else none

/-- The text of several lines up to three double quotes. -/
def basicLines : Nat → Step (List Char)
  | 0, _ | _, [] => none
  | fuel + 1, c :: rest =>
    match closing? '"' (c :: rest) with
    | some ending => some ending
    | none =>
      if c = '\\' then
        match afterFold? rest with
        | some rest => basicLines fuel rest
        | none => (escape rest).bind fun (c, rest) => before c (basicLines fuel rest)
      else if isPlain c ∨ (afterLineBreak? (c :: rest)).isSome then before c (basicLines fuel rest)
      else none

/-- The text of several lines up to three single quotes. -/
def literalLines : Step (List Char)
  | [] => none
  | c :: rest =>
    match closing? '\'' (c :: rest) with
    | some ending => some ending
    | none =>
      if isPlain c ∨ (afterLineBreak? (c :: rest)).isSome then before c (literalLines rest)
      else none

def asText (s : Option (List Char × List Char)) : Option (String × List Char) :=
  s.map fun (s, rest) => (String.ofList s, rest)

def line : Step String
  | '"' :: rest => asText (basicLine (rest.length + 1) rest)
  | '\'' :: rest => asText (literalLine rest)
  | _ => none

def any : Step String
  | '"' :: '"' :: '"' :: rest => asText (basicLines (rest.length + 1) (dropLineBreak rest))
  | '\'' :: '\'' :: '\'' :: rest => asText (literalLines (dropLineBreak rest))
  | s => line s

end BillOfMaterials.Toml.QuotedText
