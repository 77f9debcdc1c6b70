import BillOfMaterials.FileTree.Lookup
import BillOfMaterials.Table

/-!
# Walking a directory

A walk visits everything below a directory: children in byte order of their names, a directory's
contents where the directory itself stands, links as what they lead to. A link that leads nowhere,
and a link to a directory that the walk is inside of, is a fault.

Links make the walk more than a recursion on the tree. It ends because a followed link leads to a
directory that the walk is not inside of, of which there are finitely many, and because steps without
a link only go down.

Every child is followed on its own, from the directory it stands in. The limits on one path, `maxLinks`
links and `maxPath` bytes, are left out here: the links on the way to the directory do not count for
its children, and names that lead to a child may be longer than a path.
-/
namespace BillOfMaterials.FileTree

/-- What a walk sees, by the names that lead there from its start. -/
inductive Sighting where
  | file (names : List Bytes)
  /-- A link that cannot be followed. -/
  | fault (names : List Bytes)
deriving DecidableEq

def directories (t : FileTree) : List Location :=
  [] :: (t.entries.filter fun entry => entry.2.isDirectory).map (·.1)

/-- The length of the longest location. -/
def height (t : FileTree) : Nat := (t.entries.map fun entry => entry.1.length).foldl max 0

/-- How many directories a walk is not inside of. -/
def unopened (t : FileTree) (inside : List Location) : Nat :=
  (t.directories.filter fun d => !inside.contains d).length

theorem mem_directories {t : FileTree} {loc : Location} (h : t.at? loc = some .directory) :
    loc ∈ t.directories := by
  unfold at? at h
  split at h
  · simp_all [directories]
  · exact List.mem_cons_of_mem _
      (List.mem_map.2 ⟨(loc, .directory), by simp [mem_of_lookup h, FileEntry.isDirectory], rfl⟩)

theorem le_foldl_max (xs : List Nat) (a : Nat) :
    a ≤ xs.foldl max a ∧ ∀ x ∈ xs, x ≤ xs.foldl max a := by
  induction xs generalizing a with
  | nil => simp
  | cons x xs ih =>
    have h := ih (max a x)
    simp only [List.foldl_cons, List.mem_cons, forall_eq_or_imp]
    exact ⟨by omega, by omega, h.2⟩

theorem length_le_height {t : FileTree} {loc : Location} {e : FileEntry}
    (h : t.at? loc = some e) : loc.length ≤ t.height := by
  unfold at? at h
  split at h
  · simp_all
  · exact (le_foldl_max _ 0).2 _
      (List.mem_map.2 ⟨(loc, e), mem_of_lookup h, rfl⟩)

/-- Going into one more directory strikes it from those that the walk is not inside of. -/
theorem filter_contains_cons (ds inside : List Location) (loc : Location) :
    (ds.filter fun d => !(loc :: inside).contains d) =
      (ds.filter fun d => !inside.contains d).filter fun d => !(d == loc) := by
  rw [List.filter_filter]
  congr 1
  funext d
  rw [List.contains_cons, Bool.not_or]

theorem unopened_cons_le (t : FileTree) (loc : Location) (inside : List Location) :
    t.unopened (loc :: inside) ≤ t.unopened inside := by
  unfold unopened
  rw [filter_contains_cons]
  exact List.filter_sublist.length_le

theorem unopened_cons_lt {t : FileTree} {loc : Location} {inside : List Location}
    (h : t.at? loc = some .directory) (hn : loc ∉ inside) :
    t.unopened (loc :: inside) < t.unopened inside := by
  unfold unopened
  rw [filter_contains_cons]
  apply List.length_filter_lt_length_iff_exists.2
  exact ⟨loc, by simp [mem_directories h, hn], by simp⟩

/-- What a walk sees below a directory that lies at `loc` and that `names` lead to, inside of the
directories `inside`. -/
def walk (t : FileTree) (inside : List Location) (loc : Location) (names : List Bytes) :
    List Sighting :=
  (t.sortedChildren loc).flatMap fun name =>
    match h : t.at? (loc ++ [name]) with
    | none => []
    | some (.file _) => [.file (names ++ [name])]
    | some .directory => t.walk ((loc ++ [name]) :: inside) (loc ++ [name]) (names ++ [name])
    | some (.link _) =>
      match t.child? loc name with
      | none => [.fault (names ++ [name])]
      | some (target, _) =>
        match _ : t.at? target with
        | some .directory =>
          if target ∈ inside then [.fault (names ++ [name])]
          else t.walk (target :: inside) target (names ++ [name])
        | _ => [.file (names ++ [name])]
termination_by t.unopened inside * (t.height + 1) + (t.height - loc.length)
decreasing_by
  · have h1 := t.unopened_cons_le (loc ++ [name]) inside
    have h2 := length_le_height h
    simp only [List.length_append, List.length_cons, List.length_nil] at h2 ⊢
    have h3 := Nat.mul_le_mul_right (t.height + 1) h1
    omega
  · have h1 := unopened_cons_lt ‹t.at? target = some .directory› ‹target ∉ inside›
    have h3 := Nat.mul_le_mul_right (t.height + 1) (Nat.succ_le_of_lt h1)
    rw [Nat.succ_mul] at h3
    omega

/-- What a walk sees below the directory at a location. -/
def sightings (t : FileTree) (directory : Location) : List Sighting :=
  t.walk [directory] directory []

end BillOfMaterials.FileTree
