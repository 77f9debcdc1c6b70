/-!
# JSON documents

The values of the data format and their layout on several lines. Reading a document back is in
`BillOfMaterials.Json.Reader`.
-/
namespace BillOfMaterials

/-- A JSON value. A number is kept as it is written, and the members of an object keep their
order. -/
inductive Json where
  | null
  | bool (value : Bool)
  | number (literal : String)
  | string (text : String)
  | array (items : List Json)
  | object (members : List (String × Json))
deriving Inhabited

namespace Json

/-- The letter of the short escape of a control character, where there is one. -/
def shortEscape? : Char → Option Char
  | '\x08' => some 'b'
  | '\x09' => some 't'
  | '\x0a' => some 'n'
  | '\x0c' => some 'f'
  | '\x0d' => some 'r'
  | _ => none

def hexDigit (n : Nat) : Char := if n < 10 then Char.ofNat (0x30 + n) else Char.ofNat (0x57 + n)

/-- A character inside a quoted text: quotes, backslashes and the characters below the space are
escaped, all others stand for themselves. -/
def escape (c : Char) : List Char :=
  if c = '"' then ['\\', '"']
  else if c = '\\' then ['\\', '\\']
  else match shortEscape? c with
    | some letter => ['\\', letter]
    | none =>
      if c.toNat < 0x20 then ['\\', 'u', '0', '0', hexDigit (c.toNat / 16), hexDigit (c.toNat % 16)]
      else [c]

def quote (s : List Char) : List Char := '"' :: (s.flatMap escape ++ ['"'])

/-- A line break and the indentation of a nesting depth, two blanks a level. -/
def lineBreak (depth : Nat) : List Char := '\n' :: List.replicate (2 * depth) ' '

mutual

/-- A value on several lines: one line for each element and member, and none inside an empty array
or object. -/
def layout (depth : Nat) : Json → List Char
  | .null => ['n', 'u', 'l', 'l']
  | .bool true => ['t', 'r', 'u', 'e']
  | .bool false => ['f', 'a', 'l', 's', 'e']
  | .number literal => literal.toList
  | .string text => quote text.toList
  | .array [] => ['[', ']']
  | .array (item :: items) =>
    '[' :: (lineBreak (depth + 1) ++ layout (depth + 1) item ++ layoutItems (depth + 1) items ++
      lineBreak depth ++ [']'])
  | .object [] => ['\x7b', '\x7d']
  | .object ((name, value) :: members) =>
    '\x7b' :: (lineBreak (depth + 1) ++ quote name.toList ++ [':', ' '] ++ layout (depth + 1) value ++
      layoutMembers (depth + 1) members ++ lineBreak depth ++ ['\x7d'])

/-- The elements after the first one. -/
def layoutItems (depth : Nat) : List Json → List Char
  | [] => []
  | item :: items => ',' :: (lineBreak depth ++ layout depth item ++ layoutItems depth items)

/-- The members after the first one. -/
def layoutMembers (depth : Nat) : List (String × Json) → List Char
  | [] => []
  | (name, value) :: members =>
    ',' :: (lineBreak depth ++ quote name.toList ++ [':', ' '] ++ layout depth value ++
      layoutMembers depth members)

end

def render (j : Json) : String := String.ofList (layout 0 j)

end Json
end BillOfMaterials
