import BillOfMaterials.Proofs.Outside

/-!
# Trees that look alike below a place

What a path leads to by steps that stay below a place depends on nothing but what stands below it,
if no link does. So where the same stands below a place of one tree and a place of another, the same
can be made below both, and the same still stands below both afterwards. A path on the way can be
made of other steps in one tree than in the other, up to the place itself.
-/
namespace BillOfMaterials

open BillOfMaterials.Path (dot named)

/-- A place, counted from a directory. -/
def Place.below (d : Location) : Place → Place
  | .present loc => .present (d ++ loc)
  | .absent directory name => .absent (d ++ directory) name

namespace FileTree

variable {t u : FileTree} {d d' loc : Location} {p p' q x x' : Path} {b tail : List Bytes}

/-- Below `d` in `t` stands what stands below `d'` in `u`, and no link. -/
structure Mirrors (t : FileTree) (d : Location) (u : FileTree) (d' : Location) : Prop where
  entry : ∀ rest, u.at? (d' ++ rest) = t.at? (d ++ rest)
  noLink : ∀ rest target, t.at? (d ++ rest) ≠ some (.link target)
  directory : t.at? d = some .directory

namespace Mirrors

variable (h : t.Mirrors d u d')

include h

theorem directory' : u.at? d' = some .directory := by
  have hsame := h.entry []
  rwa [List.append_nil, List.append_nil, h.directory] at hsame

theorem put {rest : Location} {e : FileEntry} (hrest : rest ≠ [])
    (he : ∀ target, e ≠ .link target) :
    (t.put (d ++ rest) e).Mirrors d (u.put (d' ++ rest) e) d' := by
  have hne (d : Location) : d ++ rest ≠ [] := List.append_ne_nil_of_right_ne_nil _ hrest
  have hother {d other : Location} (ho : other ≠ rest) : d ++ other ≠ d ++ rest :=
    fun heq => ho (List.append_cancel_left heq)
  refine ⟨fun other => ?_, fun other target => ?_, ?_⟩
  · by_cases ho : other = rest
    · rw [ho, at?_put_same u e (hne d'), at?_put_same t e (hne d)]
    · rw [at?_put_other u e (hother ho), at?_put_other t e (hother ho), h.entry]
  · by_cases ho : other = rest
    · rw [ho, at?_put_same t e (hne d)]
      exact fun heq => he target (Option.some.inj heq)
    · rw [at?_put_other t e (hother ho)]
      exact h.noLink other target
  · have hself : d ≠ d ++ rest := fun heq => hrest (List.self_eq_append_right.1 heq)
    rw [at?_put_other t e hself, h.directory]

/-- Steps that stay below lead to corresponding places, however many links may still be followed. -/
theorem follow {steps : List Bytes} {rest : Location} (hk : keepsBelow rest.length steps)
    (n n' : Nat) : ∃ result, t.follow true n (d ++ rest) steps = Except.map (Place.below d) result ∧
      u.follow true n' (d' ++ rest) steps = Except.map (Place.below d') result := by
  -- the depth below the place is what `..` may use up, so the lookup never leaves it
  induction steps generalizing rest with
  | nil => exact ⟨.ok (.present rest), follow_nil .., follow_nil ..⟩
  | cons step steps ih =>
    by_cases hdot : step = [dot]
    · subst hdot
      rw [keepsBelow_dot] at hk
      rw [follow_dot, follow_dot]
      exact ih hk
    by_cases hup : step = [dot, dot]
    · subst hup
      rw [keepsBelow_up, Bool.and_eq_true, decide_eq_true_eq] at hk
      have hrest : rest ≠ [] := List.ne_nil_of_length_pos hk.1
      rw [follow_up, follow_up, List.dropLast_append_of_ne_nil hrest,
        List.dropLast_append_of_ne_nil hrest]
      exact ih (by rw [List.length_dropLast]; exact hk.2)
    by_cases hlen : step.length ≤ maxName
    · rw [keepsBelow_name hdot hup] at hk
      rw [follow_name hdot hup hlen, follow_name hdot hup hlen, List.append_assoc,
        List.append_assoc, h.entry]
      cases he : t.at? (d ++ (rest ++ [step])) with
      | none =>
        dsimp only
        by_cases hlast : steps = []
        · rw [if_pos hlast, if_pos hlast]
          exact ⟨.ok (.absent rest step), rfl, rfl⟩
        · rw [if_neg hlast, if_neg hlast]
          exact ⟨.error .notFound, rfl, rfl⟩
      | some e =>
        cases e with
        | directory => exact ih (by rw [List.length_append]; exact hk)
        | file content =>
          dsimp only
          by_cases hlast : steps = []
          · rw [if_pos hlast, if_pos hlast]
            exact ⟨.ok (.present (rest ++ [step])), rfl, rfl⟩
          · rw [if_neg hlast, if_neg hlast]
            exact ⟨.error .notDirectory, rfl, rfl⟩
        | link target => exact absurd he (h.noLink _ target)
    · have hlong := Nat.lt_of_not_le hlen
      exact ⟨.error .badName, follow_long hdot hup hlong, follow_long hdot hup hlong⟩

end Mirrors

/-! ## Paths that lead below -/

/-- Paths `p` and `p'` lead to the places `d` and `d'`, below which the same stands. -/
structure Twins (p : Path) (d : Location) (p' : Path) (d' : Location) (t u : FileTree) : Prop
    extends Mirrors t d u d' where
  first : t.LeadsTo p d
  second : u.LeadsTo p' d'

/-- The path `x` goes on from where `p` leads by the steps `b`, and by `tail` if it is looked up. -/
structure Continues (p : Path) (b tail : List Bytes) (x : Path) : Prop where
  absolute : x.isAbsolute = p.isAbsolute
  named : ∃ a, x.named = a ++ b ∧ a.filter (· ≠ [dot]) = p.named.filter (· ≠ [dot])
  steps : x.steps = x.named ++ tail
  proper : x.named ≠ []
  usable : isUsable x = true

namespace Continues

theorem spelling_ne_nil (h : Continues p b tail x) : x.spelling ≠ [] :=
  Path.ne_nil_of_named h.proper

theorem leads (h : Continues p b tail x) (hp : t.LeadsTo p d) :
    ∃ a m, x.named = a ++ b ∧ t.Leads maxLinks (t.start x) a m d := by
  obtain ⟨a, hn, ha⟩ := h.named
  obtain ⟨m, hl⟩ := hp
  have hstart : t.start x = t.start p := by rw [start, start, h.absolute]
  exact ⟨a, m, hn, by rw [hstart]; exact hl.of_filter_dot ha⟩

theorem locate_eq (h : Continues p b tail x) (hp : t.LeadsTo p d) :
    ∃ m, t.locate true x = t.follow true m d (b ++ tail) := by
  obtain ⟨a, m, hn, hl⟩ := h.leads hp
  have hlocate : t.locate true x = t.follow true maxLinks (t.start x) (a ++ (b ++ tail)) := by
    rw [locate, if_neg h.spelling_ne_nil, if_neg (by simp [h.usable]), h.steps, hn,
      List.append_assoc]
  refine ⟨m, ?_⟩
  rw [hlocate]
  by_cases hend : b ++ tail = []
  · rw [hend, List.append_nil, hl.follow_here, follow_nil]
  · exact hl.follow_append true hend

end Continues

namespace Twins

variable (h : Twins p d p' d' t u)

include h

theorem of_grows {v w : FileTree} (hm : v.Mirrors d w d') (ht : t.Grows v) (hu : u.Grows w) :
    Twins p d p' d' v w :=
  ⟨hm, h.first.grows ht, h.second.grows hu⟩

theorem locate (hx : Continues p b tail x) (hx' : Continues p' b tail x')
    (hk : keepsBelow 0 (b ++ tail)) :
    ∃ result, t.locate true x = Except.map (Place.below d) result ∧
      u.locate true x' = Except.map (Place.below d') result := by
  obtain ⟨m, hl⟩ := hx.locate_eq h.first
  obtain ⟨m', hl'⟩ := hx'.locate_eq h.second
  have hroot : keepsBelow ([] : Location).length (b ++ tail) := hk
  rw [hl, hl']
  simpa only [List.append_nil] using h.follow hroot m m'

theorem isDirectory (hx : Continues p b tail x) (hx' : Continues p' b tail x')
    (hk : keepsBelow 0 (b ++ tail)) : u.isDirectory x' = t.isDirectory x := by
  obtain ⟨result, hl, hl'⟩ := h.locate hx hx' hk
  unfold FileTree.isDirectory directory? entry?
  rw [hl, hl']
  cases result with
  | error e => rfl
  | ok place =>
    cases place with
    | absent directory name => rfl
    | present loc =>
      simp only [Except.map, Place.below, h.entry]
      cases t.at? (d ++ loc) with
      | none => rfl
      | some e => cases e <;> rfl

theorem put {rest : Location} {e : FileEntry} (hrest : rest ≠ [])
    (he : ∀ target, e ≠ .link target)
    (hs : ∀ old, t.at? (d ++ rest) = some old → e.shape = old.shape) :
    Twins p d p' d' (t.put (d ++ rest) e) (u.put (d' ++ rest) e) := by
  refine h.of_grows (h.toMirrors.put hrest he) (.put hs) (.put fun old ho => ?_)
  rw [h.entry] at ho
  exact hs old ho

/-- A directory is made below both places, or below neither for the same reason. -/
theorem makeDirectory (hx : Continues p b tail x) (hx' : Continues p' b tail x') (hb : b ≠ [])
    (hk : keepsBelow 0 b) :
    SameChange (Twins p d p' d') (t.makeDirectory x) (u.makeDirectory x') := by
  obtain ⟨a, m, hn, hl⟩ := hx.leads h.first
  obtain ⟨a', m', hn', hl'⟩ := hx'.leads h.second
  obtain ⟨front, name, rfl⟩ := (List.eq_nil_or_concat b).resolve_left hb
  rw [List.concat_eq_append] at hk hn hn'
  have hfront : keepsBelow ([] : Location).length (front ++ [[dot]]) :=
    keepsBelow_append_dot (keepsBelow_of_append hk)
  obtain ⟨result, hf, hf'⟩ := h.follow hfront m m'
  rw [List.append_nil, ← hl.follow_append true (by simp), ← List.append_assoc] at hf
  rw [List.append_nil, ← hl'.follow_append true (by simp), ← List.append_assoc] at hf'
  rw [← List.append_assoc] at hn hn'
  rw [makeDirectory_eq, makeDirectory_eq, if_neg hx.spelling_ne_nil, if_neg hx'.spelling_ne_nil,
    if_neg (by simp [hx.usable]), if_neg (by simp [hx'.usable]), hn, hn', List.getLast?_concat,
    List.getLast?_concat, List.dropLast_concat, List.dropLast_concat]
  dsimp only
  rw [hf, hf']
  cases result with
  | error e => exact .inl ⟨e, rfl, rfl⟩
  | ok place =>
    cases place with
    | absent directory missing => exact .inl ⟨.notFound, rfl, rfl⟩
    | present parent =>
      simp only [Except.map, Place.below]
      split
      · exact .inl ⟨.alreadyExists, rfl, rfl⟩
      split
      · exact .inl ⟨.badName, rfl, rfl⟩
      rw [List.append_assoc, List.append_assoc, h.entry]
      cases he : t.at? (d ++ (parent ++ [name])) with
      | some e => exact .inl ⟨.alreadyExists, rfl, rfl⟩
      | none =>
        refine .inr ⟨_, _, rfl, rfl, h.put (by simp) nofun fun old ho => ?_⟩
        rw [he] at ho
        cases ho

theorem write (hx : Continues p b tail x) (hx' : Continues p' b tail x')
    (hk : keepsBelow 0 (b ++ tail)) (content : ByteArray) :
    SameChange (Twins p d p' d') (t.write x content) (u.write x' content) := by
  obtain ⟨result, hl, hl'⟩ := h.locate hx hx' hk
  unfold FileTree.write
  rw [hl, hl']
  cases result with
  | error e => exact .inl ⟨e, rfl, rfl⟩
  | ok place =>
    cases place with
    | absent directory name =>
      simp only [Except.map, Place.below, List.append_assoc, bind, Except.bind, pure, Except.pure]
      have hnone : t.at? (d ++ (directory ++ [name])) = none := by
        rw [← List.append_assoc]
        exact at?_of_absent (locate_ok hl).2.2
      refine .inr ⟨_, _, rfl, rfl, h.put (by simp) nofun fun old ho => ?_⟩
      rw [hnone] at ho
      cases ho
    | present loc =>
      simp only [Except.map, Place.below, bind, Except.bind, h.entry]
      cases he : t.at? (d ++ loc) with
      | none => exact .inl ⟨.isDirectory, rfl, rfl⟩
      | some e =>
        cases e with
        | directory => exact .inl ⟨.isDirectory, rfl, rfl⟩
        | link target => exact absurd he (h.noLink loc target)
        | file old =>
          have hne : loc ≠ [] := by
            rintro rfl
            rw [List.append_nil, h.directory] at he
            cases he
          refine .inr ⟨_, _, rfl, rfl, h.put hne nofun fun old ho => ?_⟩
          rw [he] at ho
          cases ho
          rfl

end Twins

/-! ## Directories made one above the other -/

/-- Directories that lie in each other, the innermost first: step by step those that go on from `p`
and from `p'` alike, down to one that `p` and `p'` lead to. -/
inductive Ladder (p p' : Path) : List Path → List Path → Prop
  | bottom {x x' : Path} {tail : List Bytes} {above above' : List Path} :
      tail.filter (· ≠ [dot]) = [] → Continues p [] tail x → Continues p' [] tail x' →
      Ladder p p' (x :: above) (x' :: above')
  | rung {x x' : Path} {b tail : List Bytes} {above above' : List Path} :
      b ≠ [] → keepsBelow 0 b → keepsBelow 0 (b ++ tail) → Continues p b tail x →
      Continues p' b tail x' → Ladder p p' above above' → Ladder p p' (x :: above) (x' :: above')

/-- A path that goes on by nothing leads where `p` leads. -/
theorem Continues.isDirectory (hx : Continues p [] tail x) (ht : tail.filter (· ≠ [dot]) = [])
    (hp : t.LeadsTo p d) (hd : t.at? d = some .directory) : t.isDirectory x = true := by
  obtain ⟨m, hl⟩ := hx.locate_eq hp
  have htail : t.Leads m d tail m d := Leads.here.of_filter_dot ht
  rw [List.nil_append, htail.follow_here] at hl
  unfold FileTree.isDirectory directory? entry?
  simp only [hl, hd, Option.map_some, Option.isSome_some]

namespace Twins

/-- Going up a ladder as far as directories are missing, and down again, is the same at both
places. -/
theorem makeAll (h : Twins p d p' d' t u) {xs xs' : List Path} (hl : Ladder p p' xs xs') :
    SameResult (Twins p d p' d') (t.makeAll xs) (u.makeAll xs') := by
  induction hl with
  | bottom ht hx hx' =>
    have hd := hx.isDirectory ht h.first h.directory
    have hd' := hx'.isDirectory ht h.second h.directory'
    rw [makeAll_standing hd hx.proper, makeAll_standing hd' hx'.proper]
    exact ⟨h, rfl⟩
  | rung hb hk hkt hx hx' _ ih =>
    refine (h.makeDirectory hx hx' hb hk).makeAll h (fun hv => ?_) ih
    exact (hv.makeDirectory hx hx' hb hk).tryDirectory hv (hv.isDirectory hx hx' hkt)

end Twins

end FileTree
end BillOfMaterials
