import BillOfMaterials.FileTree.Walk
import BillOfMaterials.Proofs.Following
import BillOfMaterials.Proofs.Pieces
import BillOfMaterials.Proofs.Sorting

/-!
# What a walk goes through

`Opens` says in the form of rules which directories a walk goes into, and along which names: those
that stand in a directory, and those that links in it lead to as long as the walk is not inside of
them already. A walk sees the files in these directories and the links that it cannot follow, and
nothing else. The last of several sightings is the one whose names come last, whatever sightings are
asked for. All of this depends on what stands where, and not on the order of the table.
-/
namespace BillOfMaterials.FileTree

/-- A walk that is inside of the directories `inside` goes on from the directory `loc` into the
directory `d`, which it finds under `name`. -/
inductive Enters (t : FileTree) (inside : List Location) (loc : Location) (name : Bytes) :
    Location → Prop
  | standing : t.at? (loc ++ [name]) = some .directory → Enters t inside loc name (loc ++ [name])
  | linked {target : Path} {d : Location} :
      t.at? (loc ++ [name]) = some (.link target) → t.child? loc name = some (d, .directory) →
      d ∉ inside → Enters t inside loc name d

/-- A walk from the directory `start` goes along `names` into the directory `loc`. `inside` are the
directories that it is inside of there, the last one first. -/
inductive Opens (t : FileTree) (start : Location) :
    List Location → Location → List Bytes → Prop
  | start : Opens t start [start] start []
  | into {inside : List Location} {loc d : Location} {names : List Bytes} {name : Bytes} :
      Opens t start inside loc names → t.Enters inside loc name d →
      Opens t start (d :: inside) d (names ++ [name])

/-- A link in the directory `loc` that a walk inside of `inside` cannot follow: it leads nowhere, or
to a directory that the walk is inside of. -/
def IsBadLink (t : FileTree) (inside : List Location) (loc : Location) (name : Bytes) : Prop :=
  ∃ target, t.at? (loc ++ [name]) = some (.link target) ∧
    (t.child? loc name = none ∨ ∃ d ∈ inside, t.child? loc name = some (d, .directory))

/-- What stands in the directory `loc` under `name` is a file, or a link to no directory. -/
def IsLeaf (t : FileTree) (loc : Location) (name : Bytes) : Prop :=
  (∃ content, t.at? (loc ++ [name]) = some (.file content)) ∨
    ∃ target d e, t.at? (loc ++ [name]) = some (.link target) ∧
      t.child? loc name = some (d, e) ∧ e ≠ .directory

def Sighting.names : Sighting → List Bytes
  | .file names => names
  | .fault names => names

variable {t u : FileTree} {start loc d : Location} {inside : List Location} {names : List Bytes}
  {name : Bytes}

theorem at?_of_child? {e : FileEntry} (h : t.child? loc name = some (d, e)) :
    t.at? d = some e := by
  unfold child? at h
  split at h
  · obtain ⟨e', he, hd⟩ := Option.map_eq_some_iff.1 h
    cases hd
    exact he
  · cases h

theorem Enters.directory (h : t.Enters inside loc name d) : t.at? d = some .directory := by
  cases h with
  | standing he => exact he
  | linked _ hc _ => exact at?_of_child? hc

theorem mem_children_of_at? {e : FileEntry} (h : t.at? (loc ++ [name]) = some e) :
    name ∈ t.sortedChildren loc := by
  refine (List.mergeSort_perm _ _).mem_iff.2 (List.mem_filterMap.2 ⟨(loc ++ [name], e), ?_, ?_⟩)
  · rw [at?, if_neg (by simp)] at h
    exact mem_of_lookup h
  · simp [nameBelow?]

/-! ## One child -/

/-- What a walk sees of one child of a directory. -/
def seen (t : FileTree) (inside : List Location) (loc : Location) (names : List Bytes)
    (name : Bytes) : List Sighting :=
  match t.at? (loc ++ [name]) with
  | none => []
  | some .directory => t.walk ((loc ++ [name]) :: inside) (loc ++ [name]) (names ++ [name])
  | some (.file _) => [.file (names ++ [name])]
  | some (.link _) =>
    match t.child? loc name with
    | none => [.fault (names ++ [name])]
    | some (d, .directory) =>
      if inside.contains d then [.fault (names ++ [name])]
      else t.walk (d :: inside) d (names ++ [name])
    | some (_, .file _) => [.file (names ++ [name])]
    | some (_, .link _) => [.file (names ++ [name])]

theorem walk_eq (t : FileTree) (inside : List Location) (loc : Location) (names : List Bytes) :
    t.walk inside loc names = (t.sortedChildren loc).flatMap (t.seen inside loc names) := by
  rw [walk]
  congr 1
  funext name
  unfold seen
  cases he : t.at? (loc ++ [name]) with
  | none => rfl
  | some e =>
    cases e with
    | directory => rfl
    | file content => rfl
    | link target =>
      dsimp only
      cases hc : t.child? loc name with
      | none => rfl
      | some found =>
        obtain ⟨d, e⟩ := found
        have hd := at?_of_child? hc
        dsimp only
        split
        · rename_i h
          rw [hd] at h
          cases h
          simp only [List.contains_iff_mem]
        · rename_i h
          cases e with
          | directory => exact absurd hd h
          | file content => rfl
          | link target => rfl

theorem seen_of_enters (h : t.Enters inside loc name d) :
    t.seen inside loc names name = t.walk (d :: inside) d (names ++ [name]) := by
  unfold seen
  cases h with
  | standing he => rw [he]
  | linked he hc hn => simp only [he, hc, List.contains_iff_mem, if_neg hn]

theorem seen_of_isBadLink (h : t.IsBadLink inside loc name) :
    t.seen inside loc names name = [.fault (names ++ [name])] := by
  unfold seen
  obtain ⟨target, he, hc | ⟨d, hd, hc⟩⟩ := h
  · simp only [he, hc]
  · simp only [he, hc, List.contains_iff_mem, if_pos hd]

theorem seen_of_isLeaf (h : t.IsLeaf loc name) :
    t.seen inside loc names name = [.file (names ++ [name])] := by
  unfold seen
  obtain ⟨content, he⟩ | ⟨target, d, e, he, hc, hne⟩ := h
  · rw [he]
  · simp only [he, hc]
    cases e with
    | directory => exact absurd rfl hne
    | file content => rfl
    | link target => rfl

/-- From `loc` on each directory along `names` holds the next name only, and the last one is that of
a file. -/
def HoldsOnly (t : FileTree) : Location → List Bytes → Prop
  | loc, [] => ∃ content, t.at? loc = some (.file content)
  | loc, name :: rest =>
    t.at? loc = some .directory ∧ t.children loc = [name] ∧ HoldsOnly t (loc ++ [name]) rest

theorem walk_of_holdsOnly {rest : List Bytes} (h : t.HoldsOnly loc (name :: rest)) :
    t.walk inside loc names = [.file (names ++ name :: rest)] := by
  induction rest generalizing inside loc names name with
  | nil =>
    obtain ⟨-, hchildren, content, hfile⟩ := h
    rw [walk_eq, sortedChildren, hchildren, List.mergeSort_singleton, List.flatMap_singleton,
      seen_of_isLeaf (.inl ⟨content, hfile⟩)]
  | cons next rest ih =>
    obtain ⟨-, hchildren, hrest⟩ := h
    rw [walk_eq, sortedChildren, hchildren, List.mergeSort_singleton, List.flatMap_singleton,
      seen_of_enters (.standing hrest.1), ih hrest, List.append_assoc, List.singleton_append]

/-- All that a child can be to a walk. -/
theorem child_cases (t : FileTree) (inside : List Location) (loc : Location) (name : Bytes) :
    (∃ d, t.Enters inside loc name d) ∨ t.IsBadLink inside loc name ∨ t.IsLeaf loc name ∨
      t.at? (loc ++ [name]) = none := by
  cases he : t.at? (loc ++ [name]) with
  | none => exact .inr (.inr (.inr rfl))
  | some e =>
    cases e with
    | directory => exact .inl ⟨_, .standing he⟩
    | file content => exact .inr (.inr (.inl (.inl ⟨content, he⟩)))
    | link target =>
      cases hc : t.child? loc name with
      | none => exact .inr (.inl ⟨target, he, .inl hc⟩)
      | some found =>
        obtain ⟨d, e⟩ := found
        by_cases hdir : e = .directory
        · subst hdir
          by_cases hin : d ∈ inside
          · exact .inr (.inl ⟨target, he, .inr ⟨d, hin, hc⟩⟩)
          · exact .inl ⟨d, .linked he hc hin⟩
        · exact .inr (.inr (.inl (.inr ⟨target, d, e, he, hc, hdir⟩)))

/-- What holds of a directory if it holds of all that a walk goes on to from there, holds of every
directory. -/
theorem walk_induction {P : List Location → Location → List Bytes → Prop}
    (step : ∀ inside loc names, (∀ name d, t.Enters inside loc name d →
      P (d :: inside) d (names ++ [name])) → P inside loc names)
    (inside : List Location) (loc : Location) (names : List Bytes) : P inside loc names := by
  induction inside, loc, names using walk.induct t with
  | case1 inside loc names hstanding hlinked =>
    refine step inside loc names fun name d h => ?_
    cases h with
    | standing he => exact hstanding name he
    | linked _ hc hn => exact hlinked name d (at?_of_child? hc) hn

/-! ## All that is seen -/

theorem mem_walk_iff {s : Sighting} :
    s ∈ t.walk inside loc names ↔ ∃ name, s ∈ t.seen inside loc names name := by
  rw [walk_eq, List.mem_flatMap]
  constructor
  · rintro ⟨name, -, hs⟩
    exact ⟨name, hs⟩
  · rintro ⟨name, hs⟩
    cases he : t.at? (loc ++ [name]) with
    | none =>
      rw [seen, he] at hs
      cases hs
    | some e => exact ⟨name, mem_children_of_at? he, hs⟩

theorem mem_sightings_of_opens (h : t.Opens start inside loc names) {s : Sighting}
    (hs : s ∈ t.walk inside loc names) : s ∈ t.sightings start := by
  induction h with
  | start => exact hs
  | into _ he ih => exact ih (mem_walk_iff.2 ⟨_, seen_of_enters he ▸ hs⟩)

/-- A walk sees the links that it cannot follow and the files in the directories that it opens, and
nothing else. -/
theorem mem_sightings_iff {s : Sighting} :
    s ∈ t.sightings start ↔ ∃ inside loc names name, t.Opens start inside loc names ∧
      (t.IsBadLink inside loc name ∧ s = .fault (names ++ [name]) ∨
        t.IsLeaf loc name ∧ s = .file (names ++ [name])) := by
  constructor
  · have hdown (inside : List Location) (loc : Location) (names : List Bytes) :
        t.Opens start inside loc names → s ∈ t.walk inside loc names →
          ∃ inside loc names name, t.Opens start inside loc names ∧
            (t.IsBadLink inside loc name ∧ s = .fault (names ++ [name]) ∨
              t.IsLeaf loc name ∧ s = .file (names ++ [name])) := by
      induction inside, loc, names using walk_induction (t := t) with
      | step inside loc names ih =>
        intro ho hs
        obtain ⟨name, hs⟩ := mem_walk_iff.1 hs
        rcases t.child_cases inside loc name with ⟨d, he⟩ | hb | hl | hnone
        · rw [seen_of_enters he] at hs
          exact ih name d he (.into ho he) hs
        · rw [seen_of_isBadLink hb, List.mem_singleton] at hs
          exact ⟨inside, loc, names, name, ho, .inl ⟨hb, hs⟩⟩
        · rw [seen_of_isLeaf hl, List.mem_singleton] at hs
          exact ⟨inside, loc, names, name, ho, .inr ⟨hl, hs⟩⟩
        · rw [seen, hnone] at hs
          cases hs
    exact hdown [start] start [] .start
  · rintro ⟨inside, loc, names, name, ho, ⟨hb, rfl⟩ | ⟨hl, rfl⟩⟩
    · exact mem_sightings_of_opens ho (mem_walk_iff.2 ⟨name, by simp [seen_of_isBadLink hb]⟩)
    · exact mem_sightings_of_opens ho (mem_walk_iff.2 ⟨name, by simp [seen_of_isLeaf hl]⟩)

/-! ## How deep a walk goes -/

/-- What bounds how much further down a walk can go. -/
def room (t : FileTree) (inside : List Location) (loc : Location) : Nat :=
  t.unopened inside * (t.height + 1) + (t.height - loc.length)

/-- A directory in a directory lies deeper, one behind a link is one of those that the walk was not
inside of. -/
theorem Enters.room_lt (h : t.Enters inside loc name d) :
    t.room (d :: inside) d < t.room inside loc := by
  unfold room
  cases h with
  | standing he =>
    have hopen := t.unopened_cons_le (loc ++ [name]) inside
    have hdeep := length_le_height he
    have hmul := Nat.mul_le_mul_right (t.height + 1) hopen
    rw [List.length_append, List.length_singleton] at hdeep ⊢
    omega
  | linked _ hc hn =>
    have hopen := unopened_cons_lt (at?_of_child? hc) hn
    have hmul := Nat.mul_le_mul_right (t.height + 1) (Nat.succ_le_of_lt hopen)
    rw [Nat.succ_mul] at hmul
    omega

theorem Opens.length_add_room_le (h : t.Opens start inside loc names) :
    names.length + t.room inside loc ≤ t.room [start] start := by
  induction h with
  | start => simp
  | into _ he ih =>
    have hroom := he.room_lt
    rw [List.length_append, List.length_singleton]
    omega

/-- A walk goes through fewer names than the tree has places for them: as many as its longest
location and one more for each of its directories. -/
theorem Opens.length_lt (hs : t.at? start = some .directory)
    (h : t.Opens start inside loc names) :
    names.length < t.directories.length * (t.height + 1) := by
  have hroom := h.length_add_room_le
  have hopen : t.unopened [start] < t.directories.length := by
    have hlt : t.unopened [start] < t.unopened [] := unopened_cons_lt hs List.not_mem_nil
    have hle : t.unopened [] ≤ t.directories.length := List.length_filter_le _ _
    omega
  have hmul := Nat.mul_le_mul_right (t.height + 1) (Nat.succ_le_of_lt hopen)
  rw [Nat.succ_mul] at hmul
  unfold room at hroom
  omega

/-! ## Which sighting is the last -/

/-- The last of some sightings is the one with the greatest names, component for component. -/
def EndsGreatest (ss : List Sighting) : Prop :=
  ∀ last, ss.getLast? = some last → ∀ s ∈ ss, (compare s.names last.names).isLE

theorem EndsGreatest.flatMap {α : Type} {xs : List α} {part : α → List Sighting}
    (ordered : xs.Pairwise fun a b => a = b ∨
      ∀ s ∈ part a, ∀ s' ∈ part b, (compare s.names s'.names).isLE)
    (ends : ∀ a ∈ xs, EndsGreatest (part a)) : EndsGreatest (xs.flatMap part) := by
  induction xs with
  | nil => exact nofun
  | cons a rest ih =>
    obtain ⟨hfirst, hrest⟩ := List.pairwise_cons.1 ordered
    have hends := ih hrest fun b hb => ends b (List.mem_cons_of_mem _ hb)
    intro last hlast s hs
    rw [List.flatMap_cons, List.getLast?_append] at hlast
    rw [List.flatMap_cons, List.mem_append] at hs
    cases hr : (rest.flatMap part).getLast? with
    | none =>
      rw [hr, Option.none_or] at hlast
      rw [List.getLast?_eq_none_iff.1 hr] at hs
      exact ends a List.mem_cons_self last hlast s (hs.resolve_right List.not_mem_nil)
    | some other =>
      rw [hr] at hlast
      cases hlast
      rcases hs with hs | hs
      · obtain ⟨b, hb, hlast⟩ := List.mem_flatMap.1 (List.mem_of_getLast? hr)
        rcases hfirst b hb with rfl | hle
        · exact hends last hr s (List.mem_flatMap.2 ⟨a, hb, hs⟩)
        · exact hle s hs last hlast
      · exact hends last hr s hs

theorem EndsGreatest.of_length_le {ss : List Sighting} (h : ss.length ≤ 1) : EndsGreatest ss := by
  intro last hlast s hs
  cases ss with
  | nil => cases hs
  | cons only rest =>
    obtain rfl : rest = [] := List.length_eq_zero_iff.1 (Nat.le_zero.1 (Nat.succ_le_succ_iff.1 h))
    obtain rfl : only = last := Option.some.inj hlast
    rw [List.mem_singleton.1 hs, Std.ReflOrd.compare_self]
    rfl

theorem names_of_mem_seen {s : Sighting} (hs : s ∈ t.seen inside loc names name) :
    ∃ rest, s.names = names ++ name :: rest := by
  induction inside, loc, names using walk_induction (t := t) generalizing name with
  | step inside loc names ih =>
    rcases t.child_cases inside loc name with ⟨d, he⟩ | hb | hl | hnone
    · rw [seen_of_enters he] at hs
      obtain ⟨next, hs⟩ := mem_walk_iff.1 hs
      obtain ⟨rest, hrest⟩ := ih name d he hs
      exact ⟨next :: rest, by rw [hrest, List.append_assoc]; rfl⟩
    · rw [seen_of_isBadLink hb, List.mem_singleton] at hs
      exact ⟨[], by rw [hs]; rfl⟩
    · rw [seen_of_isLeaf hl, List.mem_singleton] at hs
      exact ⟨[], by rw [hs]; rfl⟩
    · rw [seen, hnone] at hs
      cases hs

/-- What is seen at a child comes before what is seen at the children after it. -/
theorem seen_ordered {a b : Bytes} {s s' : Sighting} (hab : (compare a b).isLE) (hne : a ≠ b)
    (hs : s ∈ t.seen inside loc names a) (hs' : s' ∈ t.seen inside loc names b) :
    (compare s.names s'.names).isLE := by
  obtain ⟨rest, hrest⟩ := names_of_mem_seen hs
  obtain ⟨rest', hrest'⟩ := names_of_mem_seen hs'
  rw [hrest, hrest', compare_append_left, List.compare_cons_cons]
  have hlt : compare a b = .lt := by
    cases hc : compare a b with
    | lt => rfl
    | eq => exact absurd (Std.LawfulEqOrd.eq_of_compare hc) hne
    | gt =>
      rw [hc] at hab
      cases hab
  rw [hlt]
  rfl

/-- Of the sightings that are asked for, the last one is the greatest. -/
theorem endsGreatest_walk (wanted : Sighting → Bool) (inside : List Location) (loc : Location)
    (names : List Bytes) : EndsGreatest ((t.walk inside loc names).filter wanted) := by
  induction inside, loc, names using walk_induction (t := t) with
  | step inside loc names ih =>
    rw [walk_eq, List.filter_flatMap]
    refine EndsGreatest.flatMap ?_ ?_
    · have hsorted : SortedBy compare (t.children loc) (t.sortedChildren loc) := .mergeSort _
      refine hsorted.ordered.imp fun {a b} hab => ?_
      by_cases hne : a = b
      · exact .inl hne
      · refine .inr fun s hs s' hs' => ?_
        exact seen_ordered hab hne (List.mem_filter.1 hs).1 (List.mem_filter.1 hs').1
    · intro name _
      rcases t.child_cases inside loc name with ⟨d, he⟩ | hb | hl | hnone
      · rw [seen_of_enters he]
        exact ih name d he
      · rw [seen_of_isBadLink hb]
        exact .of_length_le (List.length_filter_le wanted [_])
      · rw [seen_of_isLeaf hl]
        exact .of_length_le (List.length_filter_le wanted [_])
      · rw [seen, hnone]
        exact nofun

/-! ## What the order of the table is for -/

/-- The same stands everywhere in both trees, and relative paths start alike. Only the order in
which directories list their children may differ. -/
structure Alike (t u : FileTree) : Prop where
  start : u.workingDirectory = t.workingDirectory
  entry : ∀ loc, u.at? loc = t.at? loc

namespace Alike

theorem symm (h : t.Alike u) : u.Alike t := ⟨h.start.symm, fun loc => (h.entry loc).symm⟩

theorem followTo (h : t.Alike u) (final : Bool)
    (onLink : Location → List Bytes → Except FileError Place) (loc : Location)
    (steps : List Bytes) : u.followTo final onLink loc steps = t.followTo final onLink loc steps := by
  induction steps generalizing loc with
  | nil => rfl
  | cons step rest ih => simp only [FileTree.followTo, h.entry, ih]

theorem follow (h : t.Alike u) (final : Bool) (n : Nat) : u.follow final n = t.follow final n := by
  induction n with
  | zero =>
    funext loc steps
    exact h.followTo final _ loc steps
  | succ n ih =>
    funext loc steps
    rw [FileTree.follow, FileTree.follow, ih]
    exact h.followTo final _ loc steps

theorem child? (h : t.Alike u) (loc : Location) (name : Bytes) :
    u.child? loc name = t.child? loc name := by
  simp only [FileTree.child?, h.follow, h.entry]

theorem directory? (h : t.Alike u) (p : Path) : u.directory? p = t.directory? p := by
  simp only [FileTree.directory?, entry?, locate, FileTree.start, h.follow, h.entry, h.start]

theorem enters (h : t.Alike u) (he : t.Enters inside loc name d) : u.Enters inside loc name d := by
  cases he with
  | standing he => exact .standing ((h.entry _).trans he)
  | linked he hc hn => exact .linked ((h.entry _).trans he) ((h.child? _ _).trans hc) hn

theorem opens (h : t.Alike u) (ho : t.Opens start inside loc names) :
    u.Opens start inside loc names := by
  induction ho with
  | start => exact .start
  | into _ he ih => exact .into ih (h.enters he)

theorem isBadLink (h : t.Alike u) (hb : t.IsBadLink inside loc name) :
    u.IsBadLink inside loc name := by
  unfold IsBadLink
  rwa [h.entry, h.child?]

theorem isLeaf (h : t.Alike u) (hl : t.IsLeaf loc name) : u.IsLeaf loc name := by
  unfold IsLeaf
  rwa [h.entry, h.child?]

/-- Walks through trees that are alike see the same, the order and repetitions left aside. -/
theorem sightings (h : t.Alike u) {s : Sighting} (hs : s ∈ t.sightings start) :
    s ∈ u.sightings start := by
  obtain ⟨inside, loc, names, name, ho, ⟨hb, hs⟩ | ⟨hl, hs⟩⟩ := mem_sightings_iff.1 hs
  · exact mem_sightings_iff.2 ⟨inside, loc, names, name, h.opens ho, .inl ⟨h.isBadLink hb, hs⟩⟩
  · exact mem_sightings_iff.2 ⟨inside, loc, names, name, h.opens ho, .inr ⟨h.isLeaf hl, hs⟩⟩

end Alike

/-! ## Trees as file systems keep them -/

/-- Every entry lies in a directory, under a name that can stand between separators. -/
structure WellFormed (t : FileTree) : Prop where
  within : ∀ loc name e, t.at? (loc ++ [name]) = some e → t.at? loc = some .directory
  ordinary : ∀ loc name e, t.at? (loc ++ [name]) = some e →
    (Path.Component.name name).IsOrdinary

theorem Alike.wellFormed (h : t.Alike u) (ht : t.WellFormed) : u.WellFormed where
  within loc name e he := (h.entry loc).trans (ht.within loc name e ((h.entry _).symm.trans he))
  ordinary loc name e he := ht.ordinary loc name e ((h.entry _).symm.trans he)

theorem not_link_of_entries (h : ∀ entry ∈ t.entries, ∀ target, entry.2 ≠ .link target)
    (loc : Location) (target : Path) : t.at? loc ≠ some (.link target) := by
  intro hlink
  by_cases hloc : loc = []
  · subst hloc
    rw [at?_root] at hlink
    cases hlink
  · exact h _ (mem_of_lookup ((if_neg hloc).symm.trans hlink)) target rfl

namespace WellFormed

/-- The table tells whether a tree is well-formed. -/
theorem of_entries (h : ∀ entry ∈ t.entries, ∀ name ∈ entry.1.getLast?,
    (Path.Component.name name).IsOrdinary ∧
      (t.at? entry.1.dropLast).map FileEntry.isDirectory = some true) : t.WellFormed := by
  have hentry {loc : Location} {name : Bytes} {e : FileEntry}
      (he : t.at? (loc ++ [name]) = some e) : (Path.Component.name name).IsOrdinary ∧
        (t.at? loc).map FileEntry.isDirectory = some true := by
    rw [at?, if_neg (by simp)] at he
    simpa using h _ (mem_of_lookup he) name (by simp)
  refine ⟨fun loc name e he => ?_, fun loc name e he => (hentry he).1⟩
  obtain ⟨above, habove, hdirectory⟩ := Option.map_eq_some_iff.1 (hentry he).2
  cases above with
  | directory => exact habove
  | file content => cases hdirectory
  | link target => cases hdirectory

theorem above (ht : t.WellFormed) (hd : t.at? loc = some .directory) :
    t.at? loc.dropLast = some .directory := by
  rcases List.eq_nil_or_concat loc with rfl | ⟨directory, name, rfl⟩
  · exact hd
  · rw [List.concat_eq_append] at hd ⊢
    rw [List.dropLast_concat]
    exact ht.within directory name _ hd

/-- What a path leads to, links at the end followed, is no link. -/
theorem not_link_of_follow (ht : t.WellFormed) {n : Nat} {steps : List Bytes} {target : Path}
    (hd : t.at? loc = some .directory) (h : t.follow true n loc steps = .ok (.present d)) :
    t.at? d ≠ some (.link target) := by
  replace h := finds_of_follow h
  generalize hplace : Place.present d = place at h
  induction h with
  | here =>
    cases hplace
    rw [hd]
    nofun
  | stay _ ih => exact ih hd hplace
  | up _ ih => exact ih (ht.above hd) hplace
  | down _ _ _ he _ ih => exact ih he hplace
  | missing => cases hplace
  | file _ _ _ he =>
    cases hplace
    rw [he]
    nofun
  | link _ _ _ _ hfinal => cases hfinal
  | across _ _ _ _ _ _ ih =>
    refine ih ?_ hplace
    split
    · exact at?_root t
    · exact hd

theorem not_link_of_child? (ht : t.WellFormed) (hd : t.at? loc = some .directory) {e : FileEntry}
    {target : Path} (h : t.child? loc name = some (d, e)) : e ≠ .link target := by
  rintro rfl
  have he := at?_of_child? h
  unfold child? at h
  split at h
  · rename_i place hf
    obtain ⟨e, -, hplace⟩ := Option.map_eq_some_iff.1 h
    cases hplace
    exact ht.not_link_of_follow hd hf he
  · cases h

end WellFormed

theorem Opens.directory (hs : t.at? start = some .directory) (h : t.Opens start inside loc names) :
    t.at? loc = some .directory := by
  cases h with
  | start => exact hs
  | into _ he => exact he.directory

theorem Enters.child (h : t.Enters inside loc name d) : ∃ e, t.at? (loc ++ [name]) = some e := by
  cases h with
  | standing he => exact ⟨_, he⟩
  | linked he _ _ => exact ⟨_, he⟩

theorem Opens.ordinary (ht : t.WellFormed) (h : t.Opens start inside loc names) :
    ∀ name ∈ names, (Path.Component.name name).IsOrdinary := by
  induction h with
  | start => exact nofun
  | into _ he ih =>
    intro name hname
    rcases List.mem_append.1 hname with hname | hname
    · exact ih name hname
    · obtain ⟨e, he⟩ := he.child
      rw [List.mem_singleton.1 hname]
      exact ht.ordinary _ _ e he

end BillOfMaterials.FileTree
