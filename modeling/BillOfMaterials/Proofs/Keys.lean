import BillOfMaterials.Toml.Document

/-!
# Keys of tables

A key has at most one value in a table, at whatever depth the table stands in a document. Whatever adds
to a table gives a value to a new key, or goes on inside the value that a key has; so it is enough that
the tables were well keyed before.
-/
namespace BillOfMaterials.Toml

/-- No table in the value has a key twice. -/
inductive Value.WellKeyed : Value → Prop where
  | text (s : String) : WellKeyed (.text s)
  | whole (n : Whole) : WellKeyed (.whole n)
  | fractional (x : Fractional) : WellKeyed (.fractional x)
  | boolean (b : Bool) : WellKeyed (.boolean b)
  | moment (literal : String) : WellKeyed (.moment literal)
  | array {items : List Value} (values : ∀ v ∈ items, WellKeyed v) : WellKeyed (.array items)
  | table {entries : List (String × Value)} (distinct : (entries.map Prod.fst).Nodup)
      (values : ∀ entry ∈ entries, WellKeyed entry.2) : WellKeyed (.table entries)

theorem Value.WellKeyed.of_table {entries : List (String × Value)}
    (h : (Value.table entries).WellKeyed) :
    (entries.map Prod.fst).Nodup ∧ ∀ entry ∈ entries, entry.2.WellKeyed := by
  cases h with
  | table distinct values => exact ⟨distinct, values⟩

/-- No table in the entry has a key twice. -/
inductive Node.WellKeyed : Node → Prop where
  | value {v : Value} (h : v.WellKeyed) : WellKeyed (.value v)
  | table {kind : TableKind} {entries : Entries} (distinct : (entries.map Prod.fst).Nodup)
      (nodes : ∀ entry ∈ entries, WellKeyed entry.2) : WellKeyed (.table kind entries)
  | tables {elements : List Entries} (distinct : ∀ entries ∈ elements, (entries.map Prod.fst).Nodup)
      (nodes : ∀ entries ∈ elements, ∀ entry ∈ entries, WellKeyed entry.2) :
      WellKeyed (.tables elements)

/-- No key stands twice in the table under construction, or in a table inside it. -/
structure Entries.WellKeyed (entries : Entries) : Prop where
  distinct : (entries.map Prod.fst).Nodup
  nodes : ∀ entry ∈ entries, entry.2.WellKeyed

theorem Node.wellKeyed_table {kind : TableKind} {entries : Entries} :
    (Node.table kind entries).WellKeyed ↔ entries.WellKeyed := by
  constructor
  · rintro (_ | ⟨distinct, nodes⟩)
    exact ⟨distinct, nodes⟩
  · rintro ⟨distinct, nodes⟩
    exact .table distinct nodes

theorem Node.wellKeyed_tables {elements : List Entries} :
    (Node.tables elements).WellKeyed ↔ ∀ entries ∈ elements, entries.WellKeyed := by
  constructor
  · rintro (_ | _ | ⟨distinct, nodes⟩) entries hmem
    exact ⟨distinct entries hmem, nodes entries hmem⟩
  · intro h
    exact .tables (fun entries hmem => (h entries hmem).distinct)
      fun entries hmem => (h entries hmem).nodes

namespace Entries

theorem wellKeyed_nil : WellKeyed [] := ⟨List.nodup_nil, by simp⟩

/-! ## Adding to tables -/

variable {key : String}

def Keeps (f : Entries → Option Entries) : Prop :=
  ∀ entries entries', f entries = some entries' → entries.WellKeyed → entries'.WellKeyed

/-- The step keeps an entry well keyed, and makes a well-keyed one where there is none. -/
def KeepsNode (f : Option Node → Option Node) : Prop :=
  ∀ node? node', f node? = some node' → (∀ node ∈ node?, node.WellKeyed) → node'.WellKeyed

/-- Altering a key adds one at the end, or changes what the key has where it stands. -/
theorem alter_cases {f : Option Node → Option Node} {entries entries' : Entries}
    (h : alter key f entries = some entries') :
    (∃ node, key ∉ entries.map Prod.fst ∧ f none = some node ∧ entries' = entries ++ [(key, node)]) ∨
      ∃ before node node' after, f (some node) = some node' ∧
        entries = before ++ (key, node) :: after ∧ entries' = before ++ (key, node') :: after := by
  induction entries generalizing entries' with
  | nil =>
    obtain ⟨node, hnode, rfl⟩ := Option.map_eq_some_iff.1 h
    exact .inl ⟨node, by simp, hnode, rfl⟩
  | cons entry rest ih =>
    obtain ⟨k, node⟩ := entry
    rw [alter] at h
    by_cases hkey : k = key
    · rw [if_pos hkey] at h
      obtain ⟨node', hnode, rfl⟩ := Option.map_eq_some_iff.1 h
      subst hkey
      exact .inr ⟨[], node, node', rest, hnode, rfl, rfl⟩
    · rw [if_neg hkey] at h
      obtain ⟨rest', hrest, rfl⟩ := Option.map_eq_some_iff.1 h
      obtain ⟨new, hnew, hmade, rfl⟩ | ⟨before, old, new, after, hmade, rfl, rfl⟩ := ih hrest
      · exact .inl ⟨new, by simp [Ne.symm hkey, hnew], hmade, rfl⟩
      · exact .inr ⟨(k, node) :: before, old, new, after, hmade, rfl, rfl⟩

theorem keeps_alter {f : Option Node → Option Node} (hf : KeepsNode f) : Keeps (alter key f) := by
  intro entries entries' h ⟨distinct, nodes⟩
  obtain ⟨node, hnew, hmade, rfl⟩ | ⟨before, node, node', after, hmade, rfl, rfl⟩ := alter_cases h
  · have hnode := hf none node hmade (by simp)
    refine ⟨?_, fun entry hmem => ?_⟩
    · rw [List.map_append, List.nodup_append]
      refine ⟨distinct, by simp, ?_⟩
      rintro k hk k' hk' rfl
      simp only [List.map_cons, List.map_nil, List.mem_singleton] at hk'
      exact hnew (hk' ▸ hk)
    · rcases List.mem_append.1 hmem with hold | hnew
      · exact nodes entry hold
      · rw [List.mem_singleton.1 hnew]
        exact hnode
  · have hnode := hf (some node) node' hmade (by simpa using nodes (key, node) (by simp))
    refine ⟨by simpa using distinct, fun entry hmem => ?_⟩
    rcases List.mem_append.1 hmem with hbefore | hrest
    · exact nodes entry (List.mem_append_left _ hbefore)
    rcases List.mem_cons.1 hrest with rfl | hafter
    · exact hnode
    · exact nodes entry (List.mem_append_right _ (List.mem_cons_of_mem _ hafter))

/-- To go on inside the newest of several tables keeps all of them. -/
theorem wellKeyed_newest {f : Entries → Option Entries} (hf : Keeps f) {newest newest' : Entries}
    {older : List Entries} (h : f newest = some newest')
    (htables : (Node.tables (newest :: older)).WellKeyed) :
    (Node.tables (newest' :: older)).WellKeyed := by
  rw [Node.wellKeyed_tables] at htables ⊢
  obtain ⟨hnewest, holder⟩ := List.forall_mem_cons.1 htables
  exact List.forall_mem_cons.2 ⟨hf _ _ h hnewest, holder⟩

/-- To go on inside a table keeps it. -/
theorem wellKeyed_inside {f : Entries → Option Entries} (hf : Keeps f) {kind kind' : TableKind}
    {entries entries' : Entries} (h : f entries = some entries')
    (htable : (Node.table kind entries).WellKeyed) : (Node.table kind' entries').WellKeyed :=
  Node.wellKeyed_table.2 (hf _ _ h (Node.wellKeyed_table.1 htable))

theorem keepsNode_enter {f : Entries → Option Entries} (hf : Keeps f) : KeepsNode (enter f) := by
  intro node? node' h hnode
  cases node? with
  | none =>
    obtain ⟨inner, hinner, rfl⟩ := Option.map_eq_some_iff.1 h
    exact Node.wellKeyed_table.2 (hf _ _ hinner wellKeyed_nil)
  | some node =>
    cases node with
    | value v => cases h
    | table kind entries =>
      obtain ⟨inner, hinner, rfl⟩ := Option.map_eq_some_iff.1 h
      exact wellKeyed_inside hf hinner (hnode _ rfl)
    | tables elements =>
      cases elements with
      | nil => cases h
      | cons newest older =>
        obtain ⟨inner, hinner, rfl⟩ := Option.map_eq_some_iff.1 h
        exact wellKeyed_newest hf hinner (hnode _ rfl)

theorem keepsNode_enterDotted {isLast : Bool} {f : Entries → Option Entries} (hf : Keeps f) :
    KeepsNode (enterDotted isLast f) := by
  intro node? node' h hnode
  cases node? with
  | none =>
    obtain ⟨inner, hinner, rfl⟩ := Option.map_eq_some_iff.1 h
    exact Node.wellKeyed_table.2 (hf _ _ hinner wellKeyed_nil)
  | some node =>
    cases node with
    | value v => cases h
    | table kind entries =>
      cases kind with
      | declared => cases h
      | implied =>
        obtain ⟨-, h⟩ := Option.ite_none_left_eq_some.1 h
        obtain ⟨inner, hinner, rfl⟩ := Option.map_eq_some_iff.1 h
        exact wellKeyed_inside hf hinner (hnode _ rfl)
      | dotted =>
        obtain ⟨inner, hinner, rfl⟩ := Option.map_eq_some_iff.1 h
        exact wellKeyed_inside hf hinner (hnode _ rfl)
    | tables elements =>
      cases elements with
      | nil => cases h
      | cons newest older =>
        obtain ⟨-, h⟩ := Option.ite_none_left_eq_some.1 h
        obtain ⟨inner, hinner, rfl⟩ := Option.map_eq_some_iff.1 h
        exact wellKeyed_newest hf hinner (hnode _ rfl)

theorem keeps_within {f : Entries → Option Entries} (hf : Keeps f) (path : List String) :
    Keeps (within f path) := by
  induction path with
  | nil => exact hf
  | cons key path ih => exact keeps_alter (keepsNode_enter ih)

theorem keeps_declare : Keeps (declare key) := by
  refine keeps_alter fun node? node' h hnode => ?_
  cases node? with
  | none =>
    cases h
    exact Node.wellKeyed_table.2 wellKeyed_nil
  | some node =>
    cases node with
    | value v => cases h
    | table kind inner =>
      cases kind with
      | declared => cases h
      | implied =>
        cases h
        exact Node.wellKeyed_table.2 (Node.wellKeyed_table.1 (hnode _ rfl))
      | dotted => cases h
    | tables elements => cases h

theorem keeps_append : Keeps (append key) := by
  refine keeps_alter fun node? node' h hnode => ?_
  cases node? with
  | none =>
    cases h
    exact Node.wellKeyed_tables.2 (by simpa using wellKeyed_nil)
  | some node =>
    cases node with
    | value v => cases h
    | table kind inner => cases h
    | tables elements =>
      cases h
      have helements := Node.wellKeyed_tables.1 (hnode _ rfl)
      exact Node.wellKeyed_tables.2 (List.forall_mem_cons.2 ⟨wellKeyed_nil, helements⟩)

theorem keeps_define {v : Value} (hv : v.WellKeyed) : Keeps (define key v) := by
  refine keeps_alter fun node? node' h _ => ?_
  cases node? with
  | none =>
    cases h
    exact .value hv
  | some node => cases h

theorem keeps_assign {v : Value} (hv : v.WellKeyed) (path : List String) : Keeps (assign v path) := by
  induction path with
  | nil =>
    intro _ _ h
    cases h
  | cons key path ih =>
    cases path with
    | nil => exact keeps_define hv
    | cons next path => exact keeps_alter (keepsNode_enterDotted ih)

end Entries

/-! ## Finished tables -/

theorem valuesOf_eq (entries : Entries) :
    valuesOf entries = entries.map fun entry => (entry.1, entry.2.toValue) := by
  induction entries with
  | nil => rfl
  | cons entry rest ih => rw [valuesOf, ih, List.map_cons]

theorem arrayOf_eq (elements : List Entries) :
    arrayOf elements = elements.map fun entries => .table (valuesOf entries) := by
  induction elements with
  | nil => rfl
  | cons entries rest ih => rw [arrayOf, ih, List.map_cons]

theorem keys_valuesOf (entries : Entries) :
    (valuesOf entries).map Prod.fst = entries.map Prod.fst := by
  rw [valuesOf_eq, List.map_map]
  rfl

/-- A finished table is well keyed where its entries are. -/
theorem wellKeyed_valuesOf {entries : Entries} (distinct : (entries.map Prod.fst).Nodup)
    (values : ∀ entry ∈ entries, entry.2.toValue.WellKeyed) :
    (Value.table (valuesOf entries)).WellKeyed := by
  refine .table (keys_valuesOf entries ▸ distinct) fun entry hmem => ?_
  rw [valuesOf_eq] at hmem
  obtain ⟨node, hnode, rfl⟩ := List.mem_map.1 hmem
  exact values node hnode

theorem Node.WellKeyed.toValue {node : Node} (h : node.WellKeyed) : node.toValue.WellKeyed := by
  induction h with
  | value hv => exact hv
  | table distinct _ ih => exact wellKeyed_valuesOf distinct ih
  | tables distinct _ ih =>
    refine .array fun v hv => ?_
    rw [List.mem_reverse, arrayOf_eq] at hv
    obtain ⟨entries, hmem, rfl⟩ := List.mem_map.1 hv
    exact wellKeyed_valuesOf (distinct entries hmem) (ih entries hmem)

theorem Entries.WellKeyed.valuesOf {entries : Entries} (h : entries.WellKeyed) :
    (Value.table (valuesOf entries)).WellKeyed :=
  wellKeyed_valuesOf h.distinct fun entry hmem => (h.nodes entry hmem).toValue

/-! ## Reading -/

theorem scalar_wellKeyed {s rest : List Char} {v : Value} (h : scalar s = some (v, rest)) :
    v.WellKeyed := by
  obtain ⟨v, hv, hpair⟩ := Option.map_eq_some_iff.1 h
  cases hpair
  unfold scalarOf? at hv
  simp only [Option.or_eq_some_iff, Option.map_eq_some_iff, Option.ite_none_right_eq_some] at hv
  obtain ⟨b, -, rfl⟩ | ⟨-, ⟨n, -, rfl⟩ | ⟨-, ⟨x, -, rfl⟩ | ⟨-, -, hmoment⟩⟩⟩ := hv
  · exact .boolean b
  · exact .whole n
  · exact .fractional x
  · cases hmoment
    exact .moment _

/-- What the reader of values has read when it answers with a value: the items of an array, the
members of an inline table, a text, or a scalar. -/
inductive Reading (fuel : Nat) : Value → Prop where
  | array {depth : Nat} {s rest : List Char} {vs : List Value}
      (h : items fuel depth s = some (vs, rest)) : Reading fuel (.array vs)
  | table {depth : Nat} {s rest : List Char} {entries : Entries}
      (h : members fuel depth [] s = some (entries, rest)) : Reading fuel (.table (valuesOf entries))
  | text (text : String) : Reading fuel (.text text)
  | scalar {s rest : List Char} {v : Value} (h : scalar s = some (v, rest)) : Reading fuel v

theorem Reading.of_value {fuel depth : Nat} {s rest : List Char} {v : Value}
    (h : value (fuel + 1) depth s = some (v, rest)) : Reading fuel v := by
  unfold value at h
  split at h
  · cases h
  · cases h
  · obtain ⟨⟨vs, rest⟩, hitems, hpair⟩ := Option.map_eq_some_iff.1 h
    cases hpair
    exact .array hitems
  · obtain ⟨⟨entries, rest⟩, hmembers, hpair⟩ := Option.map_eq_some_iff.1 h
    cases hpair
    exact .table hmembers
  · obtain ⟨⟨text, rest⟩, -, hpair⟩ := Option.map_eq_some_iff.1 h
    cases hpair
    exact .text text
  · obtain ⟨⟨text, rest⟩, -, hpair⟩ := Option.map_eq_some_iff.1 h
    cases hpair
    exact .text text
  · exact .scalar h

/-- What the reader of values does with some fuel: values, items and members are well keyed. -/
structure ReadsWellKeyed (fuel : Nat) : Prop where
  value : ∀ depth s v rest, value fuel depth s = some (v, rest) → v.WellKeyed
  items : ∀ depth s vs rest, items fuel depth s = some (vs, rest) → ∀ v ∈ vs, v.WellKeyed
  members : ∀ depth entries s entries' rest, members fuel depth entries s = some (entries', rest) →
    entries.WellKeyed → entries'.WellKeyed

namespace ReadsWellKeyed

variable {fuel : Nat}

theorem zero : ReadsWellKeyed 0 where
  value _ _ _ _ h := by simp [Toml.value] at h
  items _ _ _ _ h := by simp [Toml.items] at h
  members _ _ _ _ _ h := by simp [Toml.members] at h

theorem value_succ (ih : ReadsWellKeyed fuel) {depth : Nat} {s rest : List Char} {v : Value}
    (h : Toml.value (fuel + 1) depth s = some (v, rest)) : v.WellKeyed := by
  cases Reading.of_value h with
  | array hitems => exact .array (ih.items _ _ _ _ hitems)
  | table hmembers => exact (ih.members _ _ _ _ _ hmembers Entries.wellKeyed_nil).valuesOf
  | text text => exact .text text
  | scalar hscalar => exact scalar_wellKeyed hscalar

theorem items_succ (ih : ReadsWellKeyed fuel) {depth : Nat} {s rest : List Char} {vs : List Value}
    (h : Toml.items (fuel + 1) depth s = some (vs, rest)) : ∀ v ∈ vs, v.WellKeyed := by
  unfold Toml.items at h
  obtain ⟨s', -, h⟩ := Option.bind_eq_some_iff.1 h
  split at h
  · cases h
    simp
  obtain ⟨⟨v, s''⟩, hvalue, h⟩ := Option.bind_eq_some_iff.1 h
  have hv := ih.value _ _ _ _ hvalue
  obtain ⟨s', -, h⟩ := Option.bind_eq_some_iff.1 h
  split at h
  · obtain ⟨⟨vs, s''⟩, hitems, h⟩ := Option.bind_eq_some_iff.1 h
    cases h
    exact List.forall_mem_cons.2 ⟨hv, ih.items _ _ _ _ hitems⟩
  · cases h
    simpa using hv
  · cases h

theorem members_succ (ih : ReadsWellKeyed fuel) {depth : Nat} {s rest : List Char}
    {entries entries' : Entries}
    (h : Toml.members (fuel + 1) depth entries s = some (entries', rest))
    (hentries : entries.WellKeyed) : entries'.WellKeyed := by
  unfold Toml.members at h
  obtain ⟨s', -, h⟩ := Option.bind_eq_some_iff.1 h
  split at h
  · cases h
    exact hentries
  obtain ⟨⟨path, s''⟩, -, h⟩ := Option.bind_eq_some_iff.1 h
  obtain ⟨s', -, h⟩ := Option.bind_eq_some_iff.1 h
  split at h
  · obtain ⟨s', -, h⟩ := Option.bind_eq_some_iff.1 h
    obtain ⟨⟨v, s''⟩, hvalue, h⟩ := Option.bind_eq_some_iff.1 h
    obtain ⟨added, hassign, h⟩ := Option.bind_eq_some_iff.1 h
    have hadded := Entries.keeps_assign (ih.value _ _ _ _ hvalue) _ _ _ hassign hentries
    obtain ⟨s', -, h⟩ := Option.bind_eq_some_iff.1 h
    split at h
    · exact ih.members _ _ _ _ _ h hadded
    · cases h
      exact hadded
    · cases h
  · cases h

end ReadsWellKeyed

theorem readsWellKeyed (fuel : Nat) : ReadsWellKeyed fuel := by
  induction fuel with
  | zero => exact .zero
  | succ fuel ih =>
    exact ⟨fun _ _ _ _ => ih.value_succ, fun _ _ _ _ => ih.items_succ,
      fun _ _ _ _ _ => ih.members_succ⟩

theorem Progress.open?_wellKeyed {p p' : Progress} {isArray : Bool} {path : List String}
    (h : p.open? isArray path = some p') (hp : p.root.WellKeyed) : p'.root.WellKeyed := by
  obtain ⟨last, -, h⟩ := Option.bind_eq_some_iff.1 h
  obtain ⟨root, hroot, h⟩ := Option.bind_eq_some_iff.1 h
  cases h
  refine Entries.keeps_within ?_ _ _ _ hroot hp
  split
  · exact Entries.keeps_append
  · exact Entries.keeps_declare

theorem Progress.assign?_wellKeyed {p p' : Progress} {path : List String} {v : Value}
    (h : p.assign? path v = some p') (hv : v.WellKeyed) (hp : p.root.WellKeyed) :
    p'.root.WellKeyed := by
  obtain ⟨root, hroot, h⟩ := Option.bind_eq_some_iff.1 h
  cases h
  exact Entries.keeps_within (Entries.keeps_assign hv path) _ _ _ hroot hp

/-- What a line does to what has been read: a header opens a table, or a key is given a value. -/
inductive Progress.TakesIn (p : Progress) : Progress → Prop where
  | header {isArray : Bool} {path : List String} {next : Progress}
      (h : p.open? isArray path = some next) : TakesIn p next
  | assignment {fuel depth : Nat} {s rest : List Char} {v : Value} {path : List String}
      {next : Progress} (hvalue : value fuel depth s = some (v, rest))
      (h : p.assign? path v = some next) : TakesIn p next

theorem Progress.TakesIn.wellKeyed {p next : Progress} (h : p.TakesIn next)
    (hp : p.root.WellKeyed) : next.root.WellKeyed := by
  cases h with
  | header hopened => exact open?_wellKeyed hopened hp
  | assignment hvalue hassigned =>
    exact assign?_wellKeyed hassigned ((readsWellKeyed _).value _ _ _ _ hvalue) hp

/-- Reading lines either ends here, or it takes a line in and goes on behind it. -/
theorem lines_succ {fuel : Nat} {p p' : Progress} {s : List Char}
    (h : lines (fuel + 1) p s = some p') :
    p' = p ∨ ∃ next rest, p.TakesIn next ∧ lines fuel next rest = some p' := by
  unfold lines at h
  obtain ⟨s', -, h⟩ := Option.bind_eq_some_iff.1 h
  split at h
  · cases h
    exact .inl rfl
  · obtain ⟨⟨⟨isArray, path⟩, rest⟩, -, h⟩ := Option.bind_eq_some_iff.1 h
    obtain ⟨opened, hopened, h⟩ := Option.bind_eq_some_iff.1 h
    obtain ⟨rest', -, h⟩ := Option.bind_eq_some_iff.1 h
    exact .inr ⟨opened, rest', .header hopened, h⟩
  · obtain ⟨⟨path, rest⟩, -, h⟩ := Option.bind_eq_some_iff.1 h
    dsimp only at h
    split at h
    · obtain ⟨⟨v, rest'⟩, hvalue, h⟩ := Option.bind_eq_some_iff.1 h
      obtain ⟨assigned, hassigned, h⟩ := Option.bind_eq_some_iff.1 h
      obtain ⟨rest'', -, h⟩ := Option.bind_eq_some_iff.1 h
      exact .inr ⟨assigned, rest'', .assignment hvalue hassigned, h⟩
    · cases h

theorem lines_wellKeyed {fuel : Nat} {p p' : Progress} {s : List Char}
    (h : lines fuel p s = some p') (hp : p.root.WellKeyed) : p'.root.WellKeyed := by
  induction fuel generalizing p s with
  | zero => cases h
  | succ fuel ih =>
    obtain rfl | ⟨next, rest, hline, hrest⟩ := lines_succ h
    · exact hp
    · exact ih hrest (hline.wellKeyed hp)

/-- No table of a document has a key twice. -/
theorem read?_wellKeyed {document : String} {entries : List (String × Value)}
    (h : read? document = some entries) : (Value.table entries).WellKeyed := by
  obtain ⟨p, hlines, rfl⟩ := Option.map_eq_some_iff.1 h
  exact (lines_wellKeyed hlines Entries.wellKeyed_nil).valuesOf

end BillOfMaterials.Toml
