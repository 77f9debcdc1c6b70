import BillOfMaterials.Text.Utf8

/-!
# Terminal sequences

A terminal takes an escape character, and what follows it, as a command and not as text. `plain` is a
text without such sequences and without control characters other than white space. White space is
shown even inside a sequence. It brings the text to the fore: what follows is shown, and only the next
control character finds the sequence still open.
-/
namespace BillOfMaterials.Text.Terminal

/-- Where a text stands in a sequence. -/
inductive State where
  /-- In no sequence. -/
  | ground
  /-- After the escape character. -/
  | escape
  /-- Among the marks of a sequence that one more character ends. -/
  | marks
  /-- In a control sequence, which a letter ends. -/
  | control
  /-- At the beginning of a device control string. -/
  | device
  /-- Among the numbers of a device control string. -/
  | deviceNumbers
  /-- Among the marks of a device control string. -/
  | deviceMarks
  /-- In a string that only a string terminator ends. -/
  | string
  /-- In a command for the operating system, which a bell ends, too. -/
  | command
deriving DecidableEq

/-- Whether a character ends any sequence by giving it up. -/
def isCancel (c : Char) : Bool := c = '\x18' || c = '\x1a'

def isWhite (c : Char) : Bool := c = ' ' || c = '\t' || c = '\n' || c = '\x0c' || c = '\r'

/-- Whether a character outside of sequences is shown. -/
def isShown (c : Char) : Bool := (0x20 ≤ c.toNat && c.toNat ≠ 0x7F) || isWhite c

/-- Whether a character has the byte of the string terminator in it. -/
def holdsTerminator (c : Char) : Bool := 0x80 ≤ c.toNat && (bytes (String.singleton c)).contains 0x9C

namespace State

/-- Whether control characters keep their meaning in the middle of a sequence. -/
def obeysControls (q : State) : Bool := q ∈ [.ground, .escape, .marks, .control]

/-- The state after the character that follows the escape character. -/
def afterEscape (c : Char) : State :=
  if c < ' ' ∨ '~' < c then .escape
  else if c ≤ '/' then .marks
  else match c with
    | '[' => .control
    | ']' => .command
    | 'P' => .device
    | 'X' | '^' | '_' => .string
    | _ => .ground

/-- The state after a character between the beginning of a device control string and its text. -/
def afterDevice (q : State) (c : Char) : State :=
  if c < ' ' ∨ '~' < c then q
  else if c ≤ '/' then .deviceMarks
  else if c ≤ '?' then
    if q = .deviceMarks ∨ (q = .deviceNumbers ∧ '<' ≤ c) then .string else .deviceNumbers
  else .string

def next (q : State) (c : Char) : State :=
  if c = '\x1b' then .escape
  else if isCancel c then .ground
  else match q with
    | .ground => .ground
    | .escape => afterEscape c
    | .marks => if '0' ≤ c ∧ c ≤ '~' then .ground else .marks
    | .control => if '@' ≤ c ∧ c ≤ '~' then .ground else .control
    | .device | .deviceNumbers | .deviceMarks => q.afterDevice c
    | .string => if holdsTerminator c then .ground else .string
    | .command => if c = '\x07' then .ground else .command

/-- Whether a character is shown in a state. -/
def shows (q : State) (c : Char) : Bool :=
  (q = .ground && isShown c) || (q.obeysControls && c < ' ' && isWhite c)

end State

/-- What is shown of characters. The flag says whether the text is to the fore. -/
def shown : Bool → State → List Char → List Char
  | _, _, [] => []
  | toTheFore, q, c :: rest =>
    if (toTheFore && isShown c) || q.shows c then
      c :: shown true (if c.toNat < 0x80 then q else .ground) rest
    else shown false (q.next c) rest

/-- A text as it is shown where no terminal takes commands. -/
def plain (s : String) : String := String.ofList (shown false .ground s.toList)

end BillOfMaterials.Text.Terminal
