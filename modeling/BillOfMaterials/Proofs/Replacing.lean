import BillOfMaterials.Proofs.Pieces
import Mathlib.Data.List.Forall2
import Mathlib.Data.List.Infix

/-!
# One pass over a text

Replacing a marker goes through the text once, from left to right. Said as a relation, a pass takes
whole occurrences and keeps every other character, and it keeps one only where no occurrence begins.
The pass decides the result, so the relation and the function say the same. What stands between the
occurrences does not depend on what is put in. What was put in is not read again; that no marker is
left follows only where none can begin in it or run into it.
-/
namespace BillOfMaterials.Text

/-- One pass over a text, with `new` in the place of each occurrence of `marker`. -/
inductive Replaces (marker new : List Char) : List Char → List Char → Prop
  | nil : Replaces marker new [] []
  | hit {s t : List Char} : Replaces marker new s t → Replaces marker new (marker ++ s) (new ++ t)
  | kept {c : Char} {s t : List Char} :
      ¬marker <+: c :: s → Replaces marker new s t → Replaces marker new (c :: s) (c :: t)

variable {marker new s t : List Char}

/-! ## The pass and the function -/

theorem replaces_replaceFrom (hmarker : marker ≠ []) (n : Nat) (s : List Char) :
    Replaces marker new (s.drop n) (replaceFrom marker new n s) := by
  induction s generalizing n with
  | nil =>
    rw [List.drop_nil]
    cases n <;> exact .nil
  | cons c rest ih =>
    cases n with
    | succ n => exact ih n
    | zero =>
      rw [List.drop_zero, replaceFrom]
      split
      · rename_i hbegins
        obtain ⟨after, hafter⟩ := List.isPrefixOf_iff_prefix.1 hbegins
        have hrest : rest.drop (marker.length - 1) = after := by
          have hpositive := List.length_pos_iff.2 hmarker
          have hcount : marker.length = marker.length - 1 + 1 := by omega
          rw [← List.drop_succ_cons (a := c), ← hcount, ← hafter, List.drop_left]
        have hpass := ih (marker.length - 1)
        rw [hrest] at hpass
        rw [← hafter]
        exact .hit hpass
      · rename_i hbegins
        exact .kept (mt List.isPrefixOf_iff_prefix.2 hbegins) (ih 0)

theorem replaces_replaceAll (hmarker : marker ≠ []) (new s : List Char) :
    Replaces marker new s (replaceAll marker new s) := by
  rw [replaceAll, if_neg (by simpa using hmarker)]
  exact replaces_replaceFrom hmarker 0 s

theorem Replaces.unique (hmarker : marker ≠ []) {t' : List Char} (h : Replaces marker new s t)
    (h' : Replaces marker new s t') : t = t' := by
  have hnil {rest : List Char} (he : marker ++ rest = []) : False :=
    hmarker (List.append_eq_nil_iff.1 he).1
  generalize hs : s = s' at h'
  induction h generalizing s' t' with
  | nil =>
    cases h' with
    | nil => rfl
    | hit => exact (hnil hs.symm).elim
    | kept => cases hs
  | @hit rest out _ ih =>
    cases h' with
    | nil => exact (hnil hs).elim
    | hit h' => rw [ih _ (List.append_cancel_left hs) h']
    | kept hnot => exact absurd (hs ▸ List.prefix_append marker rest) hnot
  | @kept c rest out hnot _ ih =>
    cases h' with
    | nil => cases hs
    | hit => exact absurd (hs ▸ List.prefix_append marker _) hnot
    | kept _ h' =>
      obtain ⟨rfl, htail⟩ := List.cons.inj hs
      rw [ih _ htail h']

theorem replaces_iff (hmarker : marker ≠ []) :
    Replaces marker new s t ↔ replaceAll marker new s = t :=
  ⟨(replaces_replaceAll hmarker new s).unique hmarker, fun h => h ▸ replaces_replaceAll hmarker new s⟩

theorem replaceAll_marker_append (hmarker : marker ≠ []) (new rest : List Char) :
    replaceAll marker new (marker ++ rest) = new ++ replaceAll marker new rest :=
  (replaces_iff hmarker).1 (.hit (replaces_replaceAll hmarker new rest))

/-! ## Passing over a beginning -/

/-- A beginning is kept where no occurrence of the marker begins in it. -/
theorem Replaces.append_front {front : List Char} (h : Replaces marker new s t)
    (hnone : ∀ part, part ≠ [] → part <:+ front → ¬marker <+: part ++ s) :
    Replaces marker new (front ++ s) (front ++ t) := by
  induction front with
  | nil => exact h
  | cons c front ih =>
    have hhere : ¬marker <+: c :: front ++ s :=
      hnone _ (List.cons_ne_nil c front) (List.suffix_refl _)
    refine .kept hhere (ih fun part hne hpart => ?_)
    exact hnone part hne (hpart.trans (List.suffix_cons c front))

/-- What does not have the first character of the marker is passed over. -/
theorem Replaces.append_kept {c : Char} {word front : List Char} (h : Replaces (c :: word) new s t)
    (hfront : c ∉ front) : Replaces (c :: word) new (front ++ s) (front ++ t) := by
  refine h.append_front fun part hne hpart hbegins => ?_
  cases part with
  | nil => exact hne rfl
  | cons d part =>
    obtain ⟨rfl, -⟩ := List.cons_prefix_cons.1 hbegins
    exact hfront (hpart.subset List.mem_cons_self)

/-- What avoids a character and begins before its next occurrence ends before it. -/
theorem prefix_of_stop {word text rest : List Char} {stop : Char} (hword : stop ∉ word)
    (hrest : ∀ c ∈ rest.head?, c = stop) (h : word <+: text ++ rest) : word <+: text := by
  induction text generalizing word with
  | nil =>
    cases word with
    | nil => exact List.nil_prefix
    | cons c word =>
      cases rest with
      | nil => exact h
      | cons d rest =>
        obtain ⟨rfl, -⟩ := List.cons_prefix_cons.1 h
        exact absurd (hrest c rfl ▸ List.mem_cons_self) hword
  | cons d text ih =>
    cases word with
    | nil => exact List.nil_prefix
    | cons c word =>
      obtain ⟨rfl, htail⟩ := List.cons_prefix_cons.1 h
      have hin := ih (fun hmem => hword (List.mem_cons_of_mem c hmem)) htail
      exact List.cons_prefix_cons.2 ⟨rfl, hin⟩

/-- What is without the marker is passed over where nothing follows it, or the first character of
the marker, which stands there once only: no occurrence begins in it and runs into what follows. -/
theorem Replaces.append_free {c : Char} {word front : List Char} (h : Replaces (c :: word) new s t)
    (hword : c ∉ word) (hnext : ∀ d ∈ s.head?, d = c) (hfront : ¬c :: word <:+: front) :
    Replaces (c :: word) new (front ++ s) (front ++ t) := by
  refine h.append_front fun part hne hpart hbegins => ?_
  cases part with
  | nil => exact hne rfl
  | cons d part =>
    obtain ⟨rfl, htail⟩ := List.cons_prefix_cons.1 hbegins
    have hinside : c :: word <+: c :: part :=
      List.cons_prefix_cons.2 ⟨rfl, prefix_of_stop hword hnext htail⟩
    exact hfront (hinside.isInfix.trans hpart.isInfix)

theorem Replaces.head_kept {c d : Char} {word rest : List Char}
    (h : Replaces (c :: word) new (d :: rest) t) (hd : d ≠ c) :
    ∃ out, t = d :: out ∧ Replaces (c :: word) new rest out := by
  generalize hs : d :: rest = s at h
  cases h with
  | nil => cases hs
  | hit => exact absurd (List.cons.inj hs).1 hd
  | kept _ hpass =>
    obtain ⟨rfl, rfl⟩ := List.cons.inj hs
    exact ⟨_, rfl, hpass⟩

/-! ## What the result is made of -/

theorem Replaces.mem {c : Char} (h : Replaces marker new s t) (hc : c ∈ t) : c ∈ s ∨ c ∈ new := by
  induction h with
  | nil => cases hc
  | hit _ ih =>
    rcases List.mem_append.1 hc with hc | hc
    · exact .inr hc
    · exact (ih hc).imp_left (List.mem_append_right marker)
  | kept _ _ ih =>
    rcases List.mem_cons.1 hc with rfl | hc
    · exact .inl List.mem_cons_self
    · exact (ih hc).imp_left (List.mem_cons_of_mem _)

theorem Replaces.mem_head? {c : Char} (h : Replaces marker new s t) (hnew : new ≠ [])
    (hc : c ∈ t.head?) : c ∈ s.head? ∨ c ∈ new.head? := by
  cases h with
  | nil => cases hc
  | hit =>
    rw [List.head?_append_of_ne_nil _ hnew] at hc
    exact .inr hc
  | kept => exact .inl hc

/-- If `new` differs from the marker only as `R` allows, the result differs so from the text. -/
theorem Replaces.forall₂ {R : Char → Char → Prop} (hrefl : ∀ c, R c c)
    (hnew : List.Forall₂ R marker new) (h : Replaces marker new s t) : List.Forall₂ R s t := by
  induction h with
  | nil => exact .nil
  | hit _ ih => exact List.rel_append hnew ih
  | kept _ _ ih => exact .cons (hrefl _) ih

/-! ## Taking a marker out -/

theorem Replaces.sublist (h : Replaces marker [] s t) : t.Sublist s := by
  induction h with
  | nil => exact List.Sublist.refl _
  | hit _ ih => exact ih.trans (List.sublist_append_right marker _)
  | kept _ _ ih => exact ih.cons_cons _

theorem replaceAll_nil_sublist (marker s : List Char) : (replaceAll marker [] s).Sublist s := by
  by_cases hmarker : marker = []
  · subst hmarker
    exact List.Sublist.refl s
  · exact (replaces_replaceAll hmarker [] s).sublist

theorem replaces_self (h : ¬marker <:+: s) : Replaces marker new s s := by
  induction s with
  | nil => exact .nil
  | cons c rest ih =>
    rw [List.infix_cons_iff, not_or] at h
    exact .kept h.1 (ih h.2)

/-- Where the marker stands anywhere, taking it out makes the text shorter. -/
theorem Replaces.length_lt (hmarker : marker ≠ []) (h : Replaces marker [] s t)
    (hin : marker <:+: s) : t.length < s.length := by
  induction h with
  | nil => exact absurd (List.infix_nil.1 hin) hmarker
  | @hit rest out hpass _ =>
    have hle : out.length ≤ rest.length := hpass.sublist.length_le
    have hpositive := List.length_pos_iff.2 hmarker
    simp only [List.nil_append, List.length_append]
    omega
  | @kept c rest out hnot _ ih =>
    have hlt := ih ((List.infix_cons_iff.1 hin).resolve_left hnot)
    simp only [List.length_cons]
    omega

theorem replaceAll_nil_eq_self_iff (hmarker : marker ≠ []) :
    replaceAll marker [] s = s ↔ ¬marker <:+: s := by
  rw [← replaces_iff hmarker]
  constructor
  · intro h hin
    exact Nat.lt_irrefl _ (h.length_lt hmarker hin)
  · exact replaces_self

/-! ## What is left of the marker -/

/-- What begins the result and avoids the beginning of `new` was there before. -/
theorem Replaces.prefix_of_prefix (h : Replaces marker new s t) (hnew : new ≠ []) {word : List Char}
    (hword : ∀ c ∈ new.head?, c ∉ word) (hbegins : word <+: t) : word <+: s := by
  induction h generalizing word with
  | nil => exact hbegins
  | @hit rest out _ _ =>
    cases word with
    | nil => exact List.nil_prefix
    | cons d word =>
      cases new with
      | nil => exact absurd rfl hnew
      | cons c new =>
        obtain ⟨rfl, -⟩ := List.cons_prefix_cons.1 hbegins
        exact absurd List.mem_cons_self (hword d rfl)
  | @kept c rest out _ _ ih =>
    cases word with
    | nil => exact List.nil_prefix
    | cons d word =>
      obtain ⟨rfl, htail⟩ := List.cons_prefix_cons.1 hbegins
      have hin := ih (fun c hc hmem => hword c hc (List.mem_cons_of_mem d hmem)) htail
      exact List.cons_prefix_cons.2 ⟨rfl, hin⟩

/-- What begins with a character that `front` does not have stands behind `front`. -/
theorem infix_of_append {c : Char} {word front back : List Char} (hfront : c ∉ front)
    (h : c :: word <:+: front ++ back) : c :: word <:+: back := by
  induction front with
  | nil => exact h
  | cons d front ih =>
    rw [List.mem_cons, not_or] at hfront
    rcases List.infix_cons_iff.1 h with hhere | hlater
    · exact absurd (List.cons_prefix_cons.1 hhere).1 hfront.1
    · exact ih hfront.2 hlater

/-- No marker is left where `new` does not have its first character, and the marker does not have the
first character of `new`. -/
theorem Replaces.not_infix {c : Char} {word : List Char} (h : Replaces (c :: word) new s t)
    (hnew : new ≠ []) (hbegin : c ∉ new) (hrun : ∀ d ∈ new.head?, d ∉ word) :
    ¬c :: word <:+: t := by
  induction h with
  | nil => simp
  | hit _ ih => exact fun hin => ih (infix_of_append hbegin hin)
  | @kept d rest out hnot hpass ih =>
    intro hin
    rcases List.infix_cons_iff.1 hin with hhere | hlater
    · obtain ⟨rfl, htail⟩ := List.cons_prefix_cons.1 hhere
      -- the rest of the marker was there already, so an occurrence began here
      apply hnot
      exact List.cons_prefix_cons.2 ⟨rfl, hpass.prefix_of_prefix hnew hrun htail⟩
    · exact ih hlater

/-! ## What stands between the markers -/

/-- A text is cut into the same pieces whatever is put in, and none of them is read again. -/
theorem exists_pieces (hmarker : marker ≠ []) (s : List Char) :
    ∃ piece pieces, s = joinWith marker (piece :: pieces) ∧
      (∀ p ∈ piece :: pieces, ¬marker <:+: p) ∧
      ∀ new, Replaces marker new s (joinWith new (piece :: pieces)) := by
  -- The induction is on one pass; where it takes a marker does not depend on what it puts in.
  obtain ⟨t, hone⟩ : ∃ t, Replaces marker [] s t := ⟨_, replaces_replaceAll hmarker [] s⟩
  have hempty : ¬marker <:+: [] := fun hin => hmarker (List.infix_nil.1 hin)
  induction hone with
  | nil => exact ⟨[], [], rfl, by simpa using hempty, fun _ => .nil⟩
  | hit _ ih =>
    obtain ⟨piece, pieces, rfl, hfree, hpass⟩ := ih
    refine ⟨[], piece :: pieces, by rw [joinWith_cons_cons, List.nil_append], ?_, fun new => ?_⟩
    · exact List.forall_mem_cons.2 ⟨hempty, hfree⟩
    · rw [joinWith_cons_cons new, List.nil_append]
      exact .hit (hpass new)
  | @kept c _ _ hnot _ ih =>
    obtain ⟨piece, pieces, rfl, hfree, hpass⟩ := ih
    have hcons (sep : List Char) :
        joinWith sep ((c :: piece) :: pieces) = c :: joinWith sep (piece :: pieces) :=
      joinWith_append_cons sep [c] piece pieces
    refine ⟨c :: piece, pieces, (hcons marker).symm, ?_, fun new => ?_⟩
    · obtain ⟨hpiece, hpieces⟩ := List.forall_mem_cons.1 hfree
      refine List.forall_mem_cons.2 ⟨fun hin => ?_, hpieces⟩
      rcases List.infix_cons_iff.1 hin with hhere | hlater
      · have hbegins := prefix_joinWith marker (c :: piece) pieces
        exact hnot (hcons marker ▸ hhere.trans hbegins)
      · exact hpiece hlater
    · rw [hcons new]
      exact .kept hnot (hpass new)

end BillOfMaterials.Text
