import BillOfMaterials.Toml

/-!
# Tables under construction

A document builds its tables piece by piece, and the format says which pieces fit together: a table is
declared by one header at most, a header may only enter tables that are not values, and a dotted key
may only add to tables that dotted keys made.
-/
namespace BillOfMaterials.Toml

/-- How a table came to be. -/
inductive TableKind where
  /-- By a header of its own. -/
  | declared
  /-- On the way to the table of a header. -/
  | implied
  /-- By a dotted key. -/
  | dotted
deriving DecidableEq

/-- An entry of a table under construction. -/
inductive Node where
  /-- A value; nothing can be added to it. -/
  | value (v : Value)
  | table (kind : TableKind) (entries : List (String × Node))
  /-- The tables of headers in double brackets, newest first. -/
  | tables (elements : List (List (String × Node)))

abbrev Entries := List (String × Node)

namespace Entries

/-- Sets the entry of a key to what `f` makes of it. -/
def alter (key : String) (f : Option Node → Option Node) : Entries → Option Entries
  | [] => (f none).map fun node => [(key, node)]
  | (k, node) :: rest =>
    if k = key then (f (some node)).map fun node => (k, node) :: rest
    else (alter key f rest).map fun rest => (k, node) :: rest

/-- Goes on inside an entry on the way of a header: in a table, or in the newest of several. -/
def enter (f : Entries → Option Entries) : Option Node → Option Node
  | none => (f []).map (.table .implied)
  | some (.table kind entries) => (f entries).map (.table kind)
  | some (.tables (newest :: older)) => (f newest).map fun newest => .tables (newest :: older)
  | some _ => none

/-- Does `f` to the table that a path of keys leads to. -/
def within (f : Entries → Option Entries) : List String → Entries → Option Entries
  | [], entries => f entries
  | key :: path, entries => alter key (enter (within f path)) entries

/-- Declares the table of a header in single brackets. -/
def declare (key : String) (entries : Entries) : Option Entries :=
  alter key (fun
    | none => some (.table .declared [])
    | some (.table .implied inner) => some (.table .declared inner)
    | some _ => none) entries

/-- Adds a table for a header in double brackets. -/
def append (key : String) (entries : Entries) : Option Entries :=
  alter key (fun
    | none => some (.tables [[]])
    | some (.tables elements) => some (.tables ([] :: elements))
    | some _ => none) entries

/-- Gives a key of a table a value; the key must be new. -/
def define (key : String) (v : Value) (entries : Entries) : Option Entries :=
  alter key (fun
    | none => some (.value v)
    | some _ => none) entries

/-- Goes on inside an entry on the way of a dotted key. The table that receives the value, where
`isLast` holds, must be made by dotted keys, too. -/
def enterDotted (isLast : Bool) (f : Entries → Option Entries) : Option Node → Option Node
  | none => (f []).map (.table .dotted)
  | some (.table .dotted entries) => (f entries).map (.table .dotted)
  | some (.table .implied entries) => if isLast then none else (f entries).map (.table .implied)
  | some (.tables (newest :: older)) =>
    if isLast then none else (f newest).map fun newest => .tables (newest :: older)
  | some _ => none

def assign (v : Value) : List String → Entries → Option Entries
  | [], _ => none
  | [key], entries => define key v entries
  | key :: next :: path, entries =>
    alter key (enterDotted path.isEmpty (assign v (next :: path))) entries

end Entries

mutual

def Node.toValue : Node → Value
  | .value v => v
  | .table _ entries => .table (valuesOf entries)
  | .tables elements => .array (arrayOf elements).reverse

/-- The values of finished entries. -/
def valuesOf : List (String × Node) → List (String × Value)
  | [] => []
  | (key, node) :: rest => (key, node.toValue) :: valuesOf rest

/-- The values of finished tables. -/
def arrayOf : List (List (String × Node)) → List Value
  | [] => []
  | entries :: rest => .table (valuesOf entries) :: arrayOf rest

end

end BillOfMaterials.Toml
