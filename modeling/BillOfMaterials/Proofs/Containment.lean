import BillOfMaterials.Archive.Unpack
import BillOfMaterials.Proofs.Changes

/-!
# Unpacking stays inside its directory

A directory without links in it is private to the work that only goes through names that stay below
it. `Private` says what such work may do to the tree; each single change keeps it, and so does the
unpacking of any entries in any order, whether it ends in a list of files or in a fault. What
carries the argument along a name is the depth reached below the directory: `..` is only followed
where the depth is positive.
-/
namespace BillOfMaterials

open BillOfMaterials.Path (dot)

/-- Whether steps lead at every moment to the place they start from or below it. The number is the
depth reached so far. -/
def keepsBelow : Nat → List Bytes → Bool
  | _, [] => true
  | depth, step :: rest =>
    if step = [dot] then keepsBelow depth rest
    else if step = [dot, dot] then decide (0 < depth) && keepsBelow (depth - 1) rest
    else keepsBelow (depth + 1) rest

theorem keepsBelow_dot (depth : Nat) (rest : List Bytes) :
    keepsBelow depth ([dot] :: rest) = keepsBelow depth rest := by
  rw [keepsBelow, if_pos rfl]

theorem keepsBelow_up (depth : Nat) (rest : List Bytes) :
    keepsBelow depth ([dot, dot] :: rest) =
      (decide (0 < depth) && keepsBelow (depth - 1) rest) := by
  rw [keepsBelow, if_neg (by decide), if_pos rfl]

theorem keepsBelow_name {step : Bytes} (hd : step ≠ [dot]) (hu : step ≠ [dot, dot]) (depth : Nat)
    (rest : List Bytes) : keepsBelow depth (step :: rest) = keepsBelow (depth + 1) rest := by
  rw [keepsBelow, if_neg hd, if_neg hu]

theorem keepsBelow_of_append {a b : List Bytes} {depth : Nat} (h : keepsBelow depth (a ++ b)) :
    keepsBelow depth a := by
  induction a generalizing depth with
  | nil => rfl
  | cons step rest ih =>
    rw [List.cons_append] at h
    by_cases hd : step = [dot]
    · subst hd
      rw [keepsBelow_dot] at h ⊢
      exact ih h
    by_cases hu : step = [dot, dot]
    · subst hu
      rw [keepsBelow_up, Bool.and_eq_true] at h ⊢
      exact ⟨h.1, ih h.2⟩
    · rw [keepsBelow_name hd hu] at h ⊢
      exact ih h

/-- Steps `.` count for nothing. -/
theorem keepsBelow_filter (steps : List Bytes) (depth : Nat) :
    keepsBelow depth (steps.filter (· ≠ [dot])) = keepsBelow depth steps := by
  induction steps generalizing depth with
  | nil => rfl
  | cons step rest ih =>
    by_cases hd : step = [dot]
    · subst hd
      rw [List.filter_cons_of_neg (by simp), keepsBelow_dot, ih]
    rw [List.filter_cons_of_pos (by simpa using hd)]
    by_cases hu : step = [dot, dot]
    · subst hu
      rw [keepsBelow_up, keepsBelow_up, ih]
    · rw [keepsBelow_name hd hu, keepsBelow_name hd hu, ih]

theorem keepsBelow_append_dot {steps : List Bytes} {depth : Nat} (h : keepsBelow depth steps) :
    keepsBelow depth (steps ++ [[dot]]) := by
  rw [← keepsBelow_filter] at h ⊢
  rwa [List.filter_append, List.filter_cons_of_neg (by simp), List.filter_nil, List.append_nil]

/-- Components that stay below are spelled by steps that do. -/
theorem keepsBelow_spelling {cs : List Path.Component} (h : ∀ c ∈ cs, c.IsOrdinary) (depth : Nat) :
    keepsBelow depth (cs.map Path.Component.spelling) = Archive.Entry.staysBelow depth cs := by
  induction cs generalizing depth with
  | nil => cases depth <;> rfl
  | cons c rest ih =>
    obtain ⟨hc, hr⟩ := List.forall_mem_cons.1 h
    rw [List.map_cons]
    cases c with
    | root => exact hc.elim
    | here => exact hc.elim
    | up =>
      show keepsBelow depth ([dot, dot] :: rest.map Path.Component.spelling) = _
      rw [keepsBelow_up, ih hr]
      cases depth with
      | zero => rfl
      | succ depth => simp [Archive.Entry.staysBelow]
    | name bytes =>
      show keepsBelow depth (bytes :: rest.map Path.Component.spelling) = _
      rw [keepsBelow_name hc.2.1 hc.2.2.1, ih hr]
      cases depth <;> rfl

namespace Archive.Entry

/-- An entry's name that may be used is relative, and its steps stay below where it is used. -/
theorem keepsBelow_named {e : Entry} (h : e.isContained) :
    e.path.isAbsolute = false ∧ keepsBelow 0 e.path.named := by
  have hs : staysBelow 0 e.path.components = true := ((Bool.and_eq_true ..).mp h).2
  rw [Path.components_eq, Path.lead] at hs
  have ha : e.path.isAbsolute = false := by
    by_contra hc
    rw [if_pos (by simpa using hc)] at hs
    cases hs
  refine ⟨ha, ?_⟩
  have ho : staysBelow 0 e.path.ordinary = true := by
    rw [if_neg (by simp [ha])] at hs
    split at hs <;> exact hs
  rwa [← keepsBelow_filter, ← Path.map_spelling_ordinary,
    keepsBelow_spelling fun c hc => Path.isOrdinary_of_mem hc]

end Archive.Entry

namespace FileTree

/-- The tree `u` differs from `t` at most at and below `d`, where no link stands. -/
structure Private (t : FileTree) (d : Location) (u : FileTree) : Prop where
  grows : t.Grows u
  noLink : ∀ loc target, d <+: loc → u.at? loc ≠ some (.link target)
  outside : u.remove d = t.remove d

/-- One change at or below `d`. -/
theorem Private.put {t u : FileTree} {d loc : Location} {e : FileEntry} (h : t.Private d u)
    (hb : d <+: loc) (hs : ∀ old, u.at? loc = some old → e.shape = old.shape)
    (hl : ∀ target, e ≠ .link target) : t.Private d (u.put loc e) where
  grows := h.grows.trans (.put hs)
  noLink other target ho hc := by
    by_cases he : other = loc
    · subst he
      by_cases hr : other = []
      · rw [hr, at?_root] at hc; cases hc
      · rw [at?_put_same _ _ hr] at hc
        exact hl target (Option.some.inj hc)
    · rw [at?_put_other _ _ he] at hc
      exact h.noLink other target ho hc
  outside := by rw [remove_put _ _ hb]; exact h.outside

theorem Private.at?_eq {t u : FileTree} {d loc : Location} (h : t.Private d u)
    (hloc : ¬d <+: loc) : u.at? loc = t.at? loc := by
  rw [← at?_remove hloc, h.outside, at?_remove hloc]

/-- Where a lookup has ended: at an entry or in a directory at or below `d`. -/
def IsWithin (d : Location) : Place → Prop
  | .present loc => d <+: loc
  | .absent directory _ => d <+: directory

/-- Steps that stay below lead to a place within. -/
theorem Private.follow_within {t u : FileTree} {d : Location} (h : t.Private d u) {final : Bool}
    {n : Nat} {place : Place} {steps : List Bytes} {loc : Location} {depth : Nat}
    (hk : keepsBelow depth steps) (hb : d <+: loc) (hd : loc.length = d.length + depth)
    (hf : u.follow final n loc steps = .ok place) : IsWithin d place := by
  induction steps generalizing loc depth with
  | nil =>
    rw [follow_nil] at hf
    cases hf
    exact hb
  | cons step rest ih =>
    by_cases hdot : step = [dot]
    · subst hdot
      rw [follow_dot] at hf
      rw [keepsBelow_dot] at hk
      exact ih hk hb hd hf
    by_cases hup : step = [dot, dot]
    · subst hup
      rw [follow_up] at hf
      rw [keepsBelow_up, Bool.and_eq_true, decide_eq_true_eq] at hk
      have hlen : loc.dropLast.length = d.length + (depth - 1) := by
        rw [List.length_dropLast]; omega
      have hb' : d <+: loc.dropLast :=
        List.prefix_of_prefix_length_le hb (List.dropLast_prefix loc) (by omega)
      exact ih hk.2 hb' hlen hf
    by_cases hl : step.length ≤ maxName
    · rw [keepsBelow_name hdot hup] at hk
      have hbs : d <+: loc ++ [step] := hb.trans (List.prefix_append ..)
      rw [follow_name hdot hup hl] at hf
      cases he : u.at? (loc ++ [step]) with
      | none =>
        simp only [he] at hf
        split at hf <;> cases hf
        exact hb
      | some e =>
        cases e with
        | directory =>
          simp only [he] at hf
          exact ih hk hbs (by simp [hd]; omega) hf
        | file content =>
          simp only [he] at hf
          split at hf <;> cases hf
          exact hbs
        | link target => exact absurd he (h.noLink _ target hbs)
    · rw [follow_long hdot hup (Nat.lt_of_not_le hl)] at hf; cases hf

/-- A path at which making a directory does no harm: it leads to what stands already, or it leads to
`d` and goes on below. -/
inductive Harmless (t : FileTree) (d : Location) (p : Path) : Prop
  | standing {m : Nat} {loc : Location} :
      t.Leads maxLinks (t.start p) p.named m loc → p.named ≠ [] → Harmless t d p
  | inside {m : Nat} {a r : List Bytes} :
      p.named = a ++ r → t.Leads maxLinks (t.start p) a m d → r ≠ [] → keepsBelow 0 r →
      Harmless t d p

namespace Private

variable {t u u' : FileTree} {d : Location} {p : Path}

theorem makeDirectory (h : t.Private d u) (hp : t.Harmless d p) (hm : u.makeDirectory p = .ok u') :
    t.Private d u' := by
  have hstart := h.grows.start_eq p
  cases hp with
  | standing hl hne =>
    obtain ⟨e, he, -⟩ := makeDirectory_standing (hstart ▸ hl.grows h.grows) hne
    rw [he] at hm
    cases hm
  | @inside m a r hn hl hr hk =>
    obtain ⟨above, name, m', parent, ha, habove, -, he, rfl⟩ := makeDirectory_ok hm
    obtain ⟨r', rfl, rfl⟩ : ∃ r', r = r' ++ [name] ∧ above = a ++ r' := by
      rcases List.eq_nil_or_concat r with rfl | ⟨r', last, rfl⟩
      · exact absurd rfl hr
      · rw [List.concat_eq_append, ← List.append_assoc] at hn
        rw [List.concat_eq_append]
        obtain ⟨rfl, hlast⟩ := List.append_inj' (ha.symm.trans hn) rfl
        exact ⟨r', by rw [hlast], rfl⟩
    have hf := habove.follow_to true
    rw [hstart, List.append_assoc, (hl.grows h.grows).follow_append _ (by simp)] at hf
    have hw : d <+: parent :=
      h.follow_within (keepsBelow_append_dot (keepsBelow_of_append hk)) (List.prefix_refl d) rfl hf
    refine h.put (hw.trans (List.prefix_append ..)) ?_ nofun
    intro old ho
    rw [he] at ho
    cases ho

theorem write {content : ByteArray} {m : Nat} {a r : List Bytes} (h : t.Private d u)
    (hs : p.steps = a ++ r) (hl : t.Leads maxLinks (t.start p) a m d) (hr : r ≠ [] ∨ a = [])
    (hk : keepsBelow 0 r) (hw : u.write p content = .ok u') : t.Private d u' := by
  have hin {place : Place} (hp : u.locate true p = .ok place) : IsWithin d place := by
    obtain ⟨-, -, hf⟩ := locate_ok hp
    rw [h.grows.start_eq, hs] at hf
    rcases hr with hr | rfl
    · rw [(hl.grows h.grows).follow_append _ hr] at hf
      exact h.follow_within hk (List.prefix_refl d) rfl hf
    · cases hl
      exact h.follow_within hk (List.prefix_refl _) rfl hf
  rcases write_ok hw with ⟨directory, name, hp, rfl⟩ | ⟨loc, old, hp, he, rfl⟩
  · have hd : d <+: directory := hin hp
    refine h.put (hd.trans (List.prefix_append ..)) ?_ nofun
    intro old ho
    obtain ⟨-, -, hf⟩ := locate_ok hp
    rw [at?_of_absent hf] at ho
    cases ho
  · refine h.put (hin hp) ?_ nofun
    intro old' ho
    rw [he] at ho
    cases ho
    rfl

end Private

/-! ## Paths that are joined -/

/-- The pieces of `x` are those that `y` begins with, `.` left aside, and there are some. -/
structure Begins (x y : Path) : Prop where
  absolute : x.isAbsolute = y.isAbsolute
  named : x.named.filter (· ≠ [dot]) <+: y.named.filter (· ≠ [dot])
  proper : x.named ≠ []

theorem begins_take {y : Path} {k : Nat} (hne : y.components.take k ≠ [])
    (hroot : y.components.take k ≠ [.root]) : Begins (.ofComponents (y.components.take k)) y where
  absolute := by
    have hk : k ≠ 0 := by
      rintro rfl
      exact hne rfl
    rw [Path.isAbsolute_ofComponents ((Path.isBeginning_components y).take k), List.head?_take,
      if_neg hk, Path.head?_components]
  named := by
    rw [Path.named_ofComponents ((Path.isBeginning_components y).take k), ← Path.spelled_components]
    refine ⟨(Path.spelled (y.components.drop k)).filter (· ≠ [dot]), ?_⟩
    rw [← List.filter_append, ← Path.spelled_append, List.take_append_drop]
  proper :=
    Path.named_ofComponents_ne_nil ((Path.isBeginning_components y).take k) hne hroot

theorem Begins.trans {x y z : Path} (h : Begins x y) (h' : Begins y z) : Begins x z :=
  ⟨h.absolute.trans h'.absolute, h.named.trans h'.named, h.proper⟩

theorem proper_of_mem_ancestors {x y : Path} (h : x ∈ ancestors y) :
    y.components ≠ [] ∧ y.components ≠ [.root] := by
  unfold ancestors at h
  dsimp only at h
  split at h
  · exact of_decide_eq_true ‹_›
  · cases h

/-- The directories that are made for a path are spelled by beginnings of it. -/
theorem begins_of_mem_ancestors {x y : Path} (h : x ∈ ancestors y) : Begins x y := by
  obtain ⟨hne, hroot⟩ := proper_of_mem_ancestors h
  unfold ancestors at h
  rw [if_pos (decide_eq_true ⟨hne, hroot⟩)] at h
  rcases List.mem_cons.1 h with rfl | h
  · exact ⟨rfl, List.prefix_refl _, Path.named_ne_nil hne hroot⟩
  · obtain ⟨cs, hcs, rfl⟩ := List.mem_map.1 h
    obtain ⟨hm, hproper⟩ := List.mem_filter.1 hcs
    obtain ⟨k, -, rfl⟩ := List.mem_map.1 hm
    obtain ⟨hne, hroot⟩ := of_decide_eq_true hproper
    exact begins_take hne hroot

theorem begins_of_mem_enclosing {x y : Path} (h : x ∈ enclosing y) : Begins x y := by
  unfold enclosing at h
  cases hparent : y.parent? with
  | none =>
    rw [hparent] at h
    cases h
  | some parent =>
    rw [hparent] at h
    obtain ⟨k, rfl⟩ : ∃ k, parent = .ofComponents (y.components.take k) := by
      unfold Path.parent? at hparent
      rw [List.dropLast_eq_take] at hparent
      split at hparent
      · cases hparent
      · cases hparent
      · exact ⟨_, (Option.some.inj hparent).symm⟩
    obtain ⟨hne, hroot⟩ := proper_of_mem_ancestors h
    rw [Path.components_ofComponents ((Path.isBeginning_components y).take k)] at hne hroot
    exact (begins_of_mem_ancestors h).trans (begins_take hne hroot)

theorem start_join (t : FileTree) {p q : Path} (hq : q.isAbsolute = false) :
    t.start (p.join q) = t.start p := by
  rw [start, start, Path.isAbsolute_join hq]

/-! A path `q` that stays below is used at a path `p`. -/

section Joined

variable {t : FileTree} {d : Location} {p q x : Path} {m : Nat} (hq : q.isAbsolute = false)

include hq

/-- A beginning of the whole names a beginning of `p`, or it names `p` and goes on as `q` begins. -/
theorem begins_join (hx : Begins x (p.join q)) :
    (∃ a b, p.named = a ++ b ∧ x.named.filter (· ≠ [dot]) = a.filter (· ≠ [dot])) ∨
      ∃ a b, x.named = a ++ b ∧ b ≠ [] ∧ a.filter (· ≠ [dot]) = p.named.filter (· ≠ [dot]) ∧
        b.filter (· ≠ [dot]) <+: q.named.filter (· ≠ [dot]) := by
  have hn := hx.named
  rw [Path.named_join hq, List.filter_append] at hn
  rcases List.prefix_or_prefix_of_prefix hn (List.prefix_append ..) with ⟨rest, hrest⟩ | ⟨r, hr⟩
  · obtain ⟨a, b, hp, ha, -⟩ := List.filter_eq_append_iff.1 hrest.symm
    exact .inl ⟨a, b, hp, ha.symm⟩
  · obtain ⟨a, b, hxn, ha, hb⟩ := List.filter_eq_append_iff.1 hr.symm
    by_cases hbn : b = []
    · subst hbn
      rw [List.append_nil] at hxn
      exact .inl ⟨p.named, [], (List.append_nil _).symm, by rw [hxn, ha]⟩
    · rw [← hr, ← hb, List.prefix_append_right_inj] at hn
      exact .inr ⟨a, b, hxn, hbn, ha, hn⟩

variable (hk : keepsBelow 0 q.named)

include hk

/-- Where `p` leads to `d`, each beginning of the whole leads to `d` or above, or goes on below. -/
theorem harmless_of_begins (hl : t.Leads maxLinks (t.start p) p.named m d)
    (hx : Begins x (p.join q)) : t.Harmless d x := by
  have hs : t.start x = t.start p := by
    rw [← start_join t (p := p) hq, start, start, hx.absolute]
  rcases begins_join hq hx with ⟨a, b, hp, ha⟩ | ⟨a, b, hxn, hb, ha, more, hmore⟩
  · rw [hp] at hl
    obtain ⟨m', l, hl', -⟩ := hl.split
    exact .standing (by rw [hs]; exact hl'.of_filter_dot ha) hx.proper
  · have hla : t.Leads maxLinks (t.start x) a m d := by
      rw [hs]
      exact hl.of_filter_dot ha
    rw [← keepsBelow_filter, ← hmore] at hk
    exact .inside hxn hla hb (keepsBelow_filter b 0 ▸ keepsBelow_of_append hk)

/-- A file at the joined path is asked for by the steps to `d` and further ones that stay below. -/
theorem steps_join : ∃ r, (p.join q).steps = p.named ++ r ∧ (r ≠ [] ∨ p.named = []) ∧
    keepsBelow 0 r := by
  rw [Path.steps_eq, Path.named_join hq]
  split
  · exact ⟨q.named ++ [[dot]], List.append_assoc .., .inl (by simp), keepsBelow_append_dot hk⟩
  · refine ⟨q.named, rfl, ?_, hk⟩
    by_cases hn : q.named = []
    · refine .inr ?_
      by_contra hpn
      have hslash : (p.join q).spelling.getLast? ≠ some Path.slash := by
        intro hc
        exact ‹¬(_ ∧ _)› ⟨hc, by simp [hpn]⟩
      have hne : p.spelling ≠ [] := fun he => hpn (by rw [Path.named, Path.pieces, he]; rfl)
      exact hslash (Path.getLast?_join hq hn hne)
    · exact .inl hn

end Joined

end FileTree

namespace Archive

open FileTree

/-- Each change that unpacking entries at `p` may make keeps a property of the tree: a directory
made for the name of an entry, and a file written under it. -/
structure UnpackingKeeps (P : FileTree → Prop) (p : Path) : Prop where
  directory : ∀ {q x : Path} {u u' : FileTree}, q.isAbsolute = false → keepsBelow 0 q.named →
    Begins x (p.join q) → P u → u.makeDirectory x = .ok u' → P u'
  file : ∀ {q : Path} {content : ByteArray} {u u' : FileTree}, q.isAbsolute = false →
    keepsBelow 0 q.named → P u → u.write (p.join q) content = .ok u' → P u'

namespace UnpackingKeeps

variable {P : FileTree → Prop} {p : Path} {u : FileTree} (hP : UnpackingKeeps P p)

include hP

theorem writeWithDirectories {q : Path} (hq : q.isAbsolute = false) (hk : keepsBelow 0 q.named)
    (h : P u) (content : ByteArray) : P (u.writeWithDirectories (p.join q) content).1 :=
  writeWithDirectories_preserves
    (fun _ _ _ hx hv hm => hP.directory hq hk (begins_of_mem_enclosing hx) hv hm)
    (fun _ _ hv hw => hP.file hq hk hv hw) h

/-- Unpacking an entry keeps the property, whatever its name and whatever becomes of it. -/
theorem unpackEntry (h : P u) (e : Entry) : P (e.unpack u p).1 := by
  have hplace (bytes : ByteArray) (isSound : Bool) : P (e.place u p bytes isSound).1 := by
    unfold Entry.place
    by_cases hc : e.isContained = true
    · obtain ⟨hq, hk⟩ := Entry.keepsBelow_named hc
      rw [if_neg (by simp [hc])]
      split
      · have ha : P (u.makeAll (ancestors (p.join e.path))).1 := makeAll_preserves
          (fun v v' x hx hv hm => hP.directory hq hk (begins_of_mem_ancestors hx) hv hm) h
        unfold makeDirectories
        cases hm : u.makeAll (ancestors (p.join e.path)) with
        | mk made outcome =>
          rw [hm] at ha
          cases outcome <;> exact ha
      · have hw := hP.writeWithDirectories hq hk h bytes
        cases hm : u.writeWithDirectories (p.join e.path) bytes with
        | mk written outcome =>
          rw [hm] at hw
          cases outcome <;> exact hw
    · rw [if_pos (by simpa using hc)]
      exact h
  unfold Entry.unpack
  cases e.content with
  | locked => exact h
  | damaged bytes => exact hplace bytes false
  | sound bytes => exact hplace bytes true

/-- So does unpacking any entries in any order, up to the first fault. -/
theorem unpackAll (h : P u) (entries : List Entry) : P (unpackAll p entries u).1 := by
  induction entries generalizing u with
  | nil => exact h
  | cons e rest ih =>
    have he := hP.unpackEntry h e
    unfold Archive.unpackAll
    cases hu : e.unpack u p with
    | mk u' outcome =>
      rw [hu] at he
      cases outcome with
      | error fault => exact he
      | ok path => exact ih he

theorem unpack (h : P u) (a : Archive) : P (a.unpack u p).1 := by
  have ha := hP.unpackAll h a.entries
  unfold Archive.unpack
  cases hu : Archive.unpackAll p a.entries u with
  | mk u' outcome =>
    rw [hu] at ha
    split <;> simp_all

theorem unpackFile (h : P u) (path : Path) : P (unpackFile u path p).1 := by
  unfold Archive.unpackFile
  cases load u path with
  | error fault => exact h
  | ok a => exact hP.unpack h a

end UnpackingKeeps

/-- Unpacking at a path that leads to `d` keeps to `d`. -/
theorem unpackingKeeps_private {t : FileTree} {d : Location} {p : Path} {m : Nat}
    (hl : t.Leads maxLinks (t.start p) p.named m d) : UnpackingKeeps (t.Private d) p where
  directory hq hk hx hu hm := hu.makeDirectory (harmless_of_begins hq hk hl hx) hm
  file {q content u u'} hq hk hu hw := by
    obtain ⟨r, hs, hr, hkr⟩ := steps_join (p := p) hq hk
    rw [← start_join t (p := p) hq] at hl
    exact hu.write hs hl hr hkr hw

end Archive
end BillOfMaterials
