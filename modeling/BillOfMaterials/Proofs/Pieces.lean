import BillOfMaterials.Path
import Mathlib.Data.List.Basic

/-!
# Pieces of paths

The pieces of a path are what stands between its separators. Putting paths together puts their
pieces together, and a path that is spelled out from components has the spellings of the components
as its pieces. So two ways to spell a path differ in empty pieces and `.` alone.
-/
namespace BillOfMaterials

namespace Text

theorem joinWith_cons_cons {α : Type} (sep piece next : List α) (pieces : List (List α)) :
    joinWith sep (piece :: next :: pieces) = piece ++ (sep ++ joinWith sep (next :: pieces)) := by
  simp [joinWith]

theorem joinWith_append_cons {α : Type} (sep front piece : List α) (pieces : List (List α)) :
    joinWith sep ((front ++ piece) :: pieces) = front ++ joinWith sep (piece :: pieces) := by
  cases pieces with
  | nil => rfl
  | cons next pieces => rw [joinWith_cons_cons, joinWith_cons_cons, List.append_assoc]

theorem prefix_joinWith {α : Type} (sep piece : List α) (pieces : List (List α)) :
    piece <+: joinWith sep (piece :: pieces) := by
  have h := joinWith_append_cons sep piece [] pieces
  rw [List.append_nil] at h
  exact h ▸ List.prefix_append _ _

section Split

variable {α : Type} [BEq α] {sep : α}

theorem splitOn_ne_nil (s : List α) : splitOn sep s ≠ [] := by
  cases s with
  | nil => simp [splitOn]
  | cons c rest =>
    simp only [splitOn]
    split
    · simp
    · split <;> simp

variable [LawfulBEq α]

theorem splitOn_cons_sep (rest : List α) : splitOn sep (sep :: rest) = [] :: splitOn sep rest := by
  cases hs : splitOn sep rest with
  | nil => exact absurd hs (splitOn_ne_nil rest)
  | cons piece pieces =>
    rw [splitOn, hs]
    exact if_pos (beq_self_eq_true sep)

theorem splitOn_cons {c : α} (h : c ≠ sep) (rest : List α) :
    ∃ piece pieces, splitOn sep rest = piece :: pieces ∧
      splitOn sep (c :: rest) = (c :: piece) :: pieces := by
  cases hs : splitOn sep rest with
  | nil => exact absurd hs (splitOn_ne_nil rest)
  | cons piece pieces =>
    refine ⟨piece, pieces, rfl, ?_⟩
    rw [splitOn, hs]
    exact if_neg (by simpa using h)

/-- A separator cuts the pieces in two. -/
theorem splitOn_append_sep (a b : List α) :
    splitOn sep (a ++ sep :: b) = splitOn sep a ++ splitOn sep b := by
  induction a with
  | nil => exact splitOn_cons_sep b
  | cons c a ih =>
    by_cases h : c = sep
    · subst h
      rw [List.cons_append, splitOn_cons_sep, splitOn_cons_sep, ih, List.cons_append]
    · obtain ⟨piece, pieces, hp, hc⟩ := splitOn_cons h (a ++ sep :: b)
      obtain ⟨piece', pieces', hp', hc'⟩ := splitOn_cons h a
      rw [ih, hp', List.cons_append, List.cons.injEq] at hp
      obtain ⟨rfl, rfl⟩ := hp
      rw [List.cons_append, hc, hc', List.cons_append]

theorem splitOn_of_not_mem {s : List α} (h : sep ∉ s) : splitOn sep s = [s] := by
  induction s with
  | nil => rfl
  | cons c rest ih =>
    obtain ⟨piece, pieces, hp, hs⟩ := splitOn_cons (List.ne_of_not_mem_cons h).symm rest
    rw [ih (List.not_mem_of_not_mem_cons h), List.cons.injEq] at hp
    obtain ⟨rfl, rfl⟩ := hp
    exact hs

theorem splitOn_append_of_not_mem {a : List α} (h : sep ∉ a) (b : List α) :
    ∃ piece pieces, splitOn sep b = piece :: pieces ∧
      splitOn sep (a ++ b) = (a ++ piece) :: pieces := by
  induction a with
  | nil =>
    have hne : splitOn sep b ≠ [] := splitOn_ne_nil b
    obtain ⟨piece, pieces, hb⟩ := List.exists_cons_of_ne_nil hne
    exact ⟨piece, pieces, hb, hb⟩
  | cons c a ih =>
    obtain ⟨piece, pieces, hb, hab⟩ := ih (List.not_mem_of_not_mem_cons h)
    obtain ⟨first, others, hfirst, hc⟩ := splitOn_cons (List.ne_of_not_mem_cons h).symm (a ++ b)
    rw [hab, List.cons.injEq] at hfirst
    obtain ⟨rfl, rfl⟩ := hfirst
    exact ⟨piece, pieces, hb, hc⟩

/-- What stands before the first separator is told from what follows it. -/
theorem append_sep_inj {s t rest rest' : List α} (hs : sep ∉ s) (ht : sep ∉ t)
    (h : s ++ sep :: rest = t ++ sep :: rest') : s = t ∧ rest = rest' := by
  have hpieces := congrArg (splitOn sep) h
  rw [splitOn_append_sep, splitOn_append_sep, splitOn_of_not_mem hs, splitOn_of_not_mem ht] at hpieces
  obtain rfl := (List.cons.inj hpieces).1
  exact ⟨rfl, (List.cons.inj (List.append_cancel_left h)).2⟩

theorem not_mem_of_mem_splitOn {s piece : List α} (h : piece ∈ splitOn sep s) : sep ∉ piece := by
  induction s generalizing piece with
  | nil => simp_all [splitOn]
  | cons c rest ih =>
    by_cases hc : c = sep
    · subst hc
      rw [splitOn_cons_sep] at h
      rcases List.mem_cons.1 h with rfl | h
      · exact List.not_mem_nil
      · exact ih h
    · obtain ⟨first, pieces, hp, hs⟩ := splitOn_cons hc rest
      rw [hs] at h
      rcases List.mem_cons.1 h with rfl | h
      · exact List.not_mem_cons_of_ne_of_not_mem (Ne.symm hc) (ih (hp ▸ List.mem_cons_self ..))
      · exact ih (hp ▸ List.mem_cons_of_mem _ h)

theorem mem_of_mem_splitOn {c : α} {s piece : List α} (h : piece ∈ splitOn sep s)
    (hc : c ∈ piece) : c ∈ s := by
  induction s generalizing piece with
  | nil =>
    rw [List.mem_singleton.1 h] at hc
    cases hc
  | cons d rest ih =>
    by_cases hd : d = sep
    · rw [hd, splitOn_cons_sep] at h
      rcases List.mem_cons.1 h with rfl | h
      · cases hc
      · exact List.mem_cons_of_mem d (ih h hc)
    · obtain ⟨first, pieces, hrest, hs⟩ := splitOn_cons hd rest
      rw [hrest] at ih
      rw [hs] at h
      rcases List.mem_cons.1 h with rfl | h
      · rcases List.mem_cons.1 hc with rfl | hc
        · exact List.mem_cons_self
        · exact List.mem_cons_of_mem d (ih List.mem_cons_self hc)
      · exact List.mem_cons_of_mem d (ih (List.mem_cons_of_mem _ h) hc)

theorem splitOn_joinWith {pieces : List (List α)} (hne : pieces ≠ [])
    (h : ∀ piece ∈ pieces, sep ∉ piece) : splitOn sep (joinWith [sep] pieces) = pieces := by
  induction pieces with
  | nil => exact absurd rfl hne
  | cons piece pieces ih =>
    obtain ⟨hp, hps⟩ := List.forall_mem_cons.1 h
    cases pieces with
    | nil => exact splitOn_of_not_mem hp
    | cons next pieces =>
      rw [joinWith_cons_cons, List.singleton_append, splitOn_append_sep, splitOn_of_not_mem hp,
        ih (List.cons_ne_nil _ _) hps]
      rfl

theorem joinWith_splitOn (s : List α) : joinWith [sep] (splitOn sep s) = s := by
  induction s with
  | nil => rfl
  | cons c rest ih =>
    by_cases hc : c = sep
    · subst hc
      rw [splitOn_cons_sep]
      cases hrest : splitOn c rest with
      | nil => exact absurd hrest (splitOn_ne_nil rest)
      | cons first pieces =>
        rw [joinWith_cons_cons, ← hrest, ih]
        rfl
    · obtain ⟨first, pieces, hrest, hs⟩ := splitOn_cons hc rest
      rw [hrest] at ih
      rw [hs, ← ih]
      exact joinWith_append_cons [sep] [c] first pieces

end Split

theorem mem_joinWith {α : Type} {sep : List α} {pieces : List (List α)} {c : α}
    (h : c ∈ joinWith sep pieces) : c ∈ sep ∨ ∃ piece ∈ pieces, c ∈ piece := by
  induction pieces with
  | nil => cases h
  | cons piece pieces ih =>
    cases pieces with
    | nil => exact .inr ⟨piece, List.mem_singleton_self piece, h⟩
    | cons next pieces =>
      rw [joinWith_cons_cons, List.mem_append, List.mem_append] at h
      rcases h with h | h | h
      · exact .inr ⟨piece, List.mem_cons_self, h⟩
      · exact .inl h
      · obtain hsep | ⟨other, hother, hc⟩ := ih h
        · exact .inl hsep
        · exact .inr ⟨other, List.mem_cons_of_mem piece hother, hc⟩

end Text

namespace Path

/-- The pieces that are not empty. -/
def named (p : Path) : List Bytes := p.pieces.filter (· ≠ [])

/-- The components after a root or a leading `.`. -/
def ordinary (p : Path) : List Component := p.pieces.filterMap Component.ofPiece?

/-- The root, or a leading `.`, if the path begins so. -/
def lead (p : Path) : List Component :=
  if p.isAbsolute then [.root] else if p.pieces.head? = some [dot] then [.here] else []

theorem components_eq (p : Path) : p.components = p.lead ++ p.ordinary := by
  unfold components lead ordinary
  split
  · rfl
  · split <;> rfl

theorem slash_not_mem_pieces {p : Path} {piece : Bytes} (h : piece ∈ p.pieces) : slash ∉ piece :=
  Text.not_mem_of_mem_splitOn h

theorem ne_nil_of_named {p : Path} (h : p.named ≠ []) : p.spelling ≠ [] := by
  intro hs
  exact h (by rw [named, pieces, hs]; rfl)

theorem steps_eq (p : Path) : p.steps =
    if p.spelling.getLast? = some slash ∧ p.named ≠ [] then p.named ++ [[dot]] else p.named := rfl

/-- Looking a path up takes the steps of its pieces, and perhaps a `.` after them. -/
theorem filter_steps (p : Path) :
    p.steps.filter (· ≠ [dot]) = p.named.filter (· ≠ [dot]) := by
  rw [steps_eq]
  split
  · rw [List.filter_append, List.filter_cons_of_neg (by simp), List.filter_nil, List.append_nil]
  · rfl

/-! ## Joining paths -/

section Join

variable {p q : Path} (hq : q.isAbsolute = false)

include hq

theorem join_eq :
    p.join q = if p.spelling = [] ∨ p.spelling.getLast? = some slash then ⟨p.spelling ++ q.spelling⟩
      else ⟨p.spelling ++ slash :: q.spelling⟩ := by
  rw [join, if_neg (by simp [hq])]

/-- What is read off the pieces, passing over the empty ones, is read off one path after the
other. -/
theorem filterMap_pieces_join {β : Type} (f : Bytes → Option β) (hf : f [] = none) :
    (p.join q).pieces.filterMap f = p.pieces.filterMap f ++ q.pieces.filterMap f := by
  rw [join_eq hq]
  unfold pieces
  by_cases he : p.spelling = []
  · rw [if_pos (.inl he), he]
    simp [Text.splitOn, hf]
  by_cases hs : p.spelling.getLast? = some slash
  · rw [if_pos (.inr hs)]
    obtain ⟨above, ha⟩ := List.getLast?_eq_some_iff.1 hs
    have hp : Text.splitOn slash p.spelling = Text.splitOn slash above ++ [[]] := by
      rw [ha, Text.splitOn_append_sep]; rfl
    have hj : Text.splitOn slash (p.spelling ++ q.spelling) =
        Text.splitOn slash above ++ Text.splitOn slash q.spelling := by
      rw [ha, List.append_assoc, List.singleton_append, Text.splitOn_append_sep]
    rw [hj, hp, List.filterMap_append, List.filterMap_append]
    simp [hf]
  · rw [if_neg (not_or.2 ⟨he, hs⟩)]
    show (Text.splitOn slash (p.spelling ++ slash :: q.spelling)).filterMap f = _
    rw [Text.splitOn_append_sep, List.filterMap_append]

theorem named_join : (p.join q).named = p.named ++ q.named := by
  have h := filterMap_pieces_join (p := p) hq (Option.guard (· ≠ [])) (by simp)
  simpa only [named, List.filterMap_eq_filter] using h

theorem ordinary_join : (p.join q).ordinary = p.ordinary ++ q.ordinary :=
  filterMap_pieces_join hq Component.ofPiece? (by simp [Component.ofPiece?])

theorem isAbsolute_join : (p.join q).isAbsolute = p.isAbsolute := by
  have ha : (p.join q).spelling = p.spelling ++ q.spelling ∨
      (p.spelling ≠ [] ∧ (p.join q).spelling = p.spelling ++ slash :: q.spelling) := by
    rw [join_eq hq]
    by_cases hn : p.spelling = [] ∨ p.spelling.getLast? = some slash
    · exact .inl (by rw [if_pos hn])
    · exact .inr ⟨fun he => hn (.inl he), by rw [if_neg hn]⟩
  unfold isAbsolute at hq ⊢
  cases hp : p.spelling with
  | nil =>
    rcases ha with ha | ⟨hn, -⟩
    · rw [ha, hp]; exact hq
    · exact absurd hp hn
  | cons b rest => rcases ha with ha | ⟨-, ha⟩ <;> rw [ha, hp] <;> rfl

/-- Only the empty path lets the other one say how the whole begins. -/
theorem lead_join (hp : p.spelling ≠ []) : (p.join q).lead = p.lead := by
  have hh : (p.join q).pieces.head? = p.pieces.head? := by
    rw [join_eq hq]
    unfold pieces
    by_cases hs : p.spelling.getLast? = some slash
    · rw [if_pos (.inr hs)]
      obtain ⟨above, ha⟩ := List.getLast?_eq_some_iff.1 hs
      show (Text.splitOn slash (p.spelling ++ q.spelling)).head? = _
      rw [ha, List.append_assoc, List.singleton_append, Text.splitOn_append_sep,
        Text.splitOn_append_sep, List.head?_append_of_ne_nil _ (Text.splitOn_ne_nil _),
        List.head?_append_of_ne_nil _ (Text.splitOn_ne_nil _)]
    · rw [if_neg (not_or.2 ⟨hp, hs⟩)]
      show (Text.splitOn slash (p.spelling ++ slash :: q.spelling)).head? = _
      rw [Text.splitOn_append_sep, List.head?_append_of_ne_nil _ (Text.splitOn_ne_nil _)]
  unfold lead
  rw [hh, isAbsolute_join hq]

theorem components_join (hp : p.spelling ≠ []) :
    (p.join q).components = p.components ++ q.ordinary := by
  rw [components_eq, components_eq, lead_join hq hp, ordinary_join hq, List.append_assoc]

/-- A path joined with one that names nothing ends in a separator. -/
theorem getLast?_join (hn : q.named = []) (hp : p.spelling ≠ []) :
    (p.join q).spelling.getLast? = some slash := by
  have he : q.spelling = [] := by
    cases hs : q.spelling with
    | nil => rfl
    | cons b rest =>
      have hb : b ≠ slash := by
        rintro rfl
        rw [isAbsolute, hs] at hq
        cases hq
      obtain ⟨piece, others, -, hsplit⟩ := Text.splitOn_cons hb rest
      rw [named, pieces, hs, hsplit, List.filter_cons_of_pos (by simp)] at hn
      cases hn
  rw [join_eq hq, he]
  split
  · rcases ‹_ ∨ _› with h | h
    · exact absurd h hp
    · rw [List.append_nil, h]
  · exact List.getLast?_concat

end Join

/-- What stands between a path and one that is joined to it. -/
def gap (p : Path) : Bytes :=
  if p.spelling = [] ∨ p.spelling.getLast? = some slash then [] else [slash]

theorem spelling_join_gap (p : Path) {q : Path} (hq : q.isAbsolute = false) :
    (p.join q).spelling = p.spelling ++ p.gap ++ q.spelling := by
  rw [join_eq hq, gap]
  split
  · rw [List.append_nil]
  · rw [List.append_assoc]
    rfl

/-- What follows joined paths follows the second one; where that is empty, the first one has got its
separator already. -/
theorem gap_join (p : Path) {q : Path} (hq : q.isAbsolute = false) : (p.join q).gap = q.gap := by
  have hspelling := spelling_join_gap p hq
  by_cases hnil : q.spelling = []
  · have hq' : q.gap = [] := if_pos (.inl hnil)
    rw [hq', gap, hspelling, hnil, List.append_nil, if_pos]
    unfold gap
    split
    · rwa [List.append_nil]
    · exact .inr List.getLast?_concat
  · have hne : (p.join q).spelling ≠ [] := by
      rw [hspelling]
      exact List.append_ne_nil_of_right_ne_nil _ hnil
    have hlast : (p.join q).spelling.getLast? = q.spelling.getLast? := by
      rw [hspelling, List.getLast?_append_of_ne_nil _ hnil]
    simp only [gap, hlast, hne, hnil]

/-- Joined paths may be put together in any order. -/
theorem join_assoc (p q r : Path) : (p.join q).join r = p.join (q.join r) := by
  have habsolute {p q : Path} (hq : q.isAbsolute = true) : p.join q = q := if_pos hq
  cases hr : r.isAbsolute with
  | true => rw [habsolute hr, habsolute hr, habsolute hr]
  | false =>
    have hqr := isAbsolute_join (p := q) hr
    cases hq : q.isAbsolute with
    | true => rw [habsolute hq, habsolute (hqr.trans hq)]
    | false =>
      refine congrArg Path.mk (?_ : ((p.join q).join r).spelling = (p.join (q.join r)).spelling)
      rw [spelling_join_gap _ hr, spelling_join_gap _ hq, spelling_join_gap _ (hqr.trans hq),
        spelling_join_gap _ hr, gap_join _ hq]
      simp only [List.append_assoc]

/-! ## Spelling out components -/

/-- A component that can follow other ones: it stands for a piece. -/
def Component.IsOrdinary : Component → Prop
  | .root => False
  | .here => False
  | .up => True
  | .name bytes => bytes ≠ [] ∧ bytes ≠ [dot] ∧ bytes ≠ [dot, dot] ∧ slash ∉ bytes

instance : DecidablePred Component.IsOrdinary
  | .root => .isFalse id
  | .here => .isFalse id
  | .up => .isTrue trivial
  | .name _ => inferInstanceAs (Decidable (_ ∧ _))

theorem isOrdinary_of_mem {p : Path} {c : Component} (h : c ∈ p.ordinary) : c.IsOrdinary := by
  obtain ⟨piece, hp, hc⟩ := List.mem_filterMap.1 h
  unfold Component.ofPiece? at hc
  split at hc
  · cases hc
  · split at hc
    · cases hc; trivial
    · cases hc
      obtain ⟨he, hd⟩ := not_or.1 ‹¬(_ ∨ _)›
      exact ⟨he, hd, ‹_›, slash_not_mem_pieces hp⟩

/-- The ordinary components are spelled as the pieces that are neither empty nor `.`. -/
theorem map_spelling_ordinary (p : Path) :
    p.ordinary.map Component.spelling = p.named.filter (· ≠ [dot]) := by
  unfold ordinary named
  induction p.pieces with
  | nil => rfl
  | cons piece pieces ih =>
    by_cases he : piece = []
    · rw [List.filterMap_cons_none (by simp [Component.ofPiece?, he]), ih]
      simp [he]
    by_cases hd : piece = [dot]
    · rw [List.filterMap_cons_none (by simp [Component.ofPiece?, hd]), ih]
      simp [hd]
    by_cases hu : piece = [dot, dot]
    · rw [List.filterMap_cons_some (b := .up) (by simp [Component.ofPiece?, hu, dot]),
        List.map_cons, ih]
      simp [hu, Component.spelling, dot]
    · rw [List.filterMap_cons_some (b := .name piece) (by simp [Component.ofPiece?, he, hd, hu]),
        List.map_cons, ih]
      simp [he, hd, Component.spelling]

/-- Components as a path begins with them: after the first one all are ordinary. -/
def IsBeginning : List Component → Prop
  | [] => True
  | first :: rest =>
    (first = .root ∨ first = .here ∨ first.IsOrdinary) ∧ ∀ c ∈ rest, c.IsOrdinary

theorem isBeginning_components (p : Path) : IsBeginning p.components := by
  rw [components_eq]
  have ho : ∀ c ∈ p.ordinary, c.IsOrdinary := fun c hc => isOrdinary_of_mem hc
  unfold lead
  split
  · exact ⟨.inl rfl, ho⟩
  · split
    · exact ⟨.inr (.inl rfl), ho⟩
    · cases hc : p.ordinary with
      | nil => trivial
      | cons c rest =>
        rw [hc] at ho
        exact ⟨.inr (.inr (ho c (List.mem_cons_self ..))),
          fun d hd => ho d (List.mem_cons_of_mem _ hd)⟩

theorem IsBeginning.take {cs : List Component} (h : IsBeginning cs) (k : Nat) :
    IsBeginning (cs.take k) := by
  cases cs with
  | nil => rw [List.take_nil]; trivial
  | cons first rest =>
    cases k with
    | zero => trivial
    | succ k => exact ⟨h.1, fun c hc => h.2 c (List.mem_of_mem_take hc)⟩

def spelled (cs : List Component) : List Bytes := (cs.filter (· ≠ .root)).map Component.spelling

theorem spelled_append (cs ds : List Component) :
    spelled (cs ++ ds) = spelled cs ++ spelled ds := by
  rw [spelled, List.filter_append, List.map_append]; rfl

theorem spelled_ordinary {cs : List Component} (h : ∀ c ∈ cs, c.IsOrdinary) :
    spelled cs = cs.map Component.spelling := by
  unfold spelled
  rw [List.filter_eq_self.2]
  intro c hc
  have ho := h c hc
  cases c <;> simp_all [Component.IsOrdinary]

theorem spelled_components (p : Path) :
    (spelled p.components).filter (· ≠ [dot]) = p.named.filter (· ≠ [dot]) := by
  rw [components_eq, spelled_append, spelled_ordinary fun c hc => isOrdinary_of_mem hc,
    map_spelling_ordinary, List.filter_append, List.filter_filter]
  have hl : (spelled p.lead).filter (· ≠ [dot]) = [] := by
    unfold lead
    split
    · rfl
    · split <;> rfl
  simp only [hl, List.nil_append, Bool.and_self]

theorem spelling_ne_nil {c : Component} (h : c = .here ∨ c.IsOrdinary) :
    c.spelling ≠ [] ∧ slash ∉ c.spelling := by
  rcases h with rfl | h
  · exact ⟨by decide, by decide⟩
  · cases c with
    | root => exact h.elim
    | here => exact h.elim
    | up => exact ⟨by decide, by decide⟩
    | name bytes => exact ⟨h.1, h.2.2.2⟩

theorem pieces_ofComponents {cs : List Component} (hne : cs ≠ [])
    (h : ∀ c ∈ cs, c = .here ∨ c.IsOrdinary) :
    (Text.splitOn slash (Text.joinWith [slash] (cs.map Component.spelling))).filter (· ≠ []) =
      spelled cs := by
  have hs : ∀ piece ∈ cs.map Component.spelling, piece ≠ [] ∧ slash ∉ piece := by
    intro piece hp
    obtain ⟨c, hc, rfl⟩ := List.mem_map.1 hp
    exact spelling_ne_nil (h c hc)
  rw [Text.splitOn_joinWith (by simpa using hne) fun piece hp => (hs piece hp).2,
    List.filter_eq_self.2 fun piece hp => by simpa using (hs piece hp).1, spelled,
    List.filter_eq_self.2]
  intro c hc
  rcases h c hc with rfl | ho
  · rfl
  · cases c <;> simp_all [Component.IsOrdinary]

/-- A path spelled out from components has their spellings as its pieces. -/
theorem named_ofComponents {cs : List Component} (h : IsBeginning cs) :
    (ofComponents cs).named = spelled cs := by
  cases cs with
  | nil => rfl
  | cons first rest =>
    obtain ⟨hf, hr⟩ := h
    rcases hf with rfl | hf
    · unfold named pieces ofComponents
      rw [Text.splitOn_cons_sep]
      cases rest with
      | nil => rfl
      | cons c rest =>
        have hp := pieces_ofComponents (List.cons_ne_nil c rest) fun c hc => .inr (hr c hc)
        simpa [spelled] using hp
    · have hall : ∀ c ∈ first :: rest, c = .here ∨ c.IsOrdinary := by
        intro c hc
        rcases List.mem_cons.1 hc with rfl | hc
        · exact hf
        · exact .inr (hr c hc)
      have hroot : first ≠ .root := by
        rintro rfl
        exact hf.elim (fun h => nomatch h) id
      rw [← pieces_ofComponents (List.cons_ne_nil first rest) hall]
      unfold named pieces
      cases first <;> first | exact absurd rfl hroot | rfl

theorem isAbsolute_ofComponents {cs : List Component} (h : IsBeginning cs) :
    (ofComponents cs).isAbsolute = (cs.head? == some .root) := by
  cases cs with
  | nil => rfl
  | cons first rest =>
    rcases h.1 with rfl | hf
    · rfl
    · have hs := spelling_ne_nil hf
      obtain ⟨b, bytes, hb⟩ := List.exists_cons_of_ne_nil hs.1
      have hroot : first ≠ .root := by
        rintro rfl
        exact hf.elim (fun h => nomatch h) id
      have hj : ∃ more, (ofComponents (first :: rest)).spelling = b :: more := by
        cases rest with
        | nil =>
          exact ⟨bytes, by cases first <;> first | exact absurd rfl hroot | exact hb⟩
        | cons c rest =>
          refine ⟨bytes ++ slash :: Text.joinWith [slash] ((c :: rest).map Component.spelling), ?_⟩
          rw [← List.cons_append, ← hb]
          cases first <;> first | exact absurd rfl hroot | simp [ofComponents, Text.joinWith]
      obtain ⟨more, hm⟩ := hj
      have hne : b ≠ slash := fun he => hs.2 (by rw [hb, he]; exact List.mem_cons_self ..)
      rw [isAbsolute, hm]
      simp [hne, hroot]

theorem head?_components (p : Path) : (p.components.head? == some .root) = p.isAbsolute := by
  rw [components_eq]
  unfold lead
  split
  · simp_all
  · split
    · simp_all
    · cases hc : p.ordinary with
      | nil => simp_all
      | cons c rest =>
        have ho : c.IsOrdinary := isOrdinary_of_mem (p := p) (hc ▸ List.mem_cons_self ..)
        cases c <;> simp_all [Component.IsOrdinary]

/-- The ordinary components are read off the pieces that are not empty. -/
theorem ordinary_eq (p : Path) : p.ordinary = p.named.filterMap Component.ofPiece? := by
  unfold ordinary named
  rw [List.filterMap_filter]
  congr 1
  funext piece
  by_cases he : piece = []
  · simp [he, Component.ofPiece?]
  · simp [he]

theorem ofPiece?_spelling {c : Component} (h : c.IsOrdinary) :
    Component.ofPiece? c.spelling = some c := by
  cases c with
  | root => exact h.elim
  | here => exact h.elim
  | up => rfl
  | name bytes =>
    obtain ⟨he, hd, hu, -⟩ := h
    simp [Component.spelling, Component.ofPiece?, he, hd, hu]

theorem ordinary_spelled {cs : List Component} (h : ∀ c ∈ cs, c.IsOrdinary) :
    (spelled cs).filterMap Component.ofPiece? = cs := by
  rw [spelled_ordinary h]
  induction cs with
  | nil => rfl
  | cons c rest ih =>
    obtain ⟨hc, hr⟩ := List.forall_mem_cons.1 h
    rw [List.map_cons, List.filterMap_cons_some (ofPiece?_spelling hc), ih hr]

/-- Components are read back from the path that spells them out. -/
theorem components_ofComponents {cs : List Component} (h : IsBeginning cs) :
    (ofComponents cs).components = cs := by
  rw [components_eq, ordinary_eq, named_ofComponents h]
  cases cs with
  | nil => rfl
  | cons first rest =>
    have ha := isAbsolute_ofComponents h
    obtain ⟨hf, hr⟩ := h
    have hs : spelled (first :: rest) = spelled [first] ++ spelled rest :=
      spelled_append [first] rest
    rw [hs, List.filterMap_append, ordinary_spelled hr, lead, ha]
    rcases hf with rfl | hf
    · rfl
    · have hp : (ofComponents (first :: rest)).pieces = (first :: rest).map Component.spelling := by
        have hroot : first ≠ .root := by
          rintro rfl
          exact hf.elim (fun h => nomatch h) id
        have hslash : ∀ piece ∈ (first :: rest).map Component.spelling, slash ∉ piece := by
          intro piece hm
          obtain ⟨c, hc, rfl⟩ := List.mem_map.1 hm
          rcases List.mem_cons.1 hc with rfl | hc
          · exact (spelling_ne_nil hf).2
          · exact (spelling_ne_nil (.inr (hr c hc))).2
        have hj := Text.splitOn_joinWith (List.cons_ne_nil _ _) hslash
        cases first <;> first | exact absurd rfl hroot | exact hj
      rw [hp]
      cases first with
      | root => exact hf.elim (fun h => nomatch h) False.elim
      | here => rfl
      | up => rfl
      | name bytes =>
        have ho : Component.IsOrdinary (.name bytes) := hf.resolve_left nofun
        have hb : bytes ≠ [dot] := ho.2.1
        have hone : ∀ c ∈ [Component.name bytes], c.IsOrdinary := by simpa using ho
        rw [ordinary_spelled hone]
        simp [Component.spelling, hb]

theorem named_ne_nil {p : Path} (h : p.components ≠ []) (hr : p.components ≠ [.root]) :
    p.named ≠ [] := by
  intro hn
  have ho : p.ordinary = [] := by rw [ordinary_eq, hn]; rfl
  rw [components_eq, ho, List.append_nil, lead] at h hr
  by_cases ha : p.isAbsolute = true
  · exact hr (if_pos ha)
  · rw [if_neg ha] at h
    by_cases hd : p.pieces.head? = some [dot]
    · have hm : [dot] ∈ p.named :=
        List.mem_filter.2 ⟨List.mem_of_mem_head? hd, by decide⟩
      rw [hn] at hm
      cases hm
    · exact h (if_neg hd)

theorem named_ofComponents_ne_nil {cs : List Component} (h : IsBeginning cs) (hne : cs ≠ [])
    (hroot : cs ≠ [.root]) : (ofComponents cs).named ≠ [] := by
  have hcomponents := components_ofComponents h
  exact named_ne_nil (by rwa [hcomponents]) (by rwa [hcomponents])

/-! ## Paths of one name -/

theorem isAbsolute_of_not_mem {p : Path} (h : slash ∉ p.spelling) : p.isAbsolute = false := by
  unfold isAbsolute
  cases hs : p.spelling with
  | nil => rfl
  | cons b rest =>
    rw [hs] at h
    have hne : b ≠ slash := fun hb => h (hb ▸ List.mem_cons_self)
    simpa using hne

theorem named_of_not_mem {p : Path} (h : slash ∉ p.spelling) :
    p.named = if p.spelling = [] then [] else [p.spelling] := by
  rw [named, pieces, Text.splitOn_of_not_mem h]
  by_cases hs : p.spelling = []
  · rw [if_pos hs, hs]
    rfl
  · rw [if_neg hs, List.filter_cons_of_pos (by simpa using hs), List.filter_nil]

theorem ordinary_of_name {name : Bytes} (h : (Component.name name).IsOrdinary) :
    (Path.mk name).ordinary = [.name name] := by
  rw [ordinary_eq, named_of_not_mem h.2.2.2, if_neg h.1]
  exact List.filterMap_cons_some (ofPiece?_spelling h)

theorem components_join_name {p : Path} {name : Bytes} (h : (Component.name name).IsOrdinary) :
    (p.join ⟨name⟩).components = p.components ++ [.name name] := by
  have hrelative := isAbsolute_of_not_mem (p := ⟨name⟩) h.2.2.2
  by_cases hp : p.spelling = []
  · -- the name alone begins neither with a separator nor with `.`
    have hpieces : (Path.mk name).pieces = [name] := Text.splitOn_of_not_mem h.2.2.2
    have hlead : (Path.mk name).lead = [] := by
      rw [lead, if_neg (by simp [hrelative]), if_neg]
      rw [hpieces]
      exact fun heq => h.2.1 (Option.some.inj heq)
    obtain ⟨spelling⟩ := p
    subst hp
    rw [join_eq hrelative, if_pos (.inl rfl)]
    show (Path.mk name).components = _
    rw [components_eq, hlead, ordinary_of_name h]
    rfl
  · rw [components_join hrelative hp, ordinary_of_name h]

/-- The steps of a name come after those of the path that it is looked up below. -/
theorem steps_join_name (p : Path) {name : Bytes} (h : (Component.name name).IsOrdinary) :
    (p.join ⟨name⟩).steps = p.named ++ [name] := by
  obtain ⟨hne, -, -, hslash⟩ := h
  have hrelative := isAbsolute_of_not_mem (p := ⟨name⟩) hslash
  have hnamed : (p.join ⟨name⟩).named = p.named ++ [name] := by
    rw [named_join hrelative, named_of_not_mem (p := ⟨name⟩) hslash, if_neg hne]
  have hlast : (p.join ⟨name⟩).spelling.getLast? = name.getLast? := by
    rw [join_eq hrelative]
    split
    · exact List.getLast?_append_of_ne_nil _ hne
    · show (p.spelling ++ slash :: name).getLast? = _
      rw [List.getLast?_append_of_ne_nil _ (List.cons_ne_nil _ _), List.getLast?_cons_of_ne_nil hne]
  rw [steps_eq, if_neg, hnamed]
  rintro ⟨hend, -⟩
  rw [hlast] at hend
  exact hslash (List.mem_of_getLast? hend)

theorem join_ne_nil {p q : Path} (hp : p.spelling ≠ []) (hq : q.isAbsolute = false) :
    (p.join q).spelling ≠ [] := by
  rw [join_eq hq]
  split
  · exact List.append_ne_nil_of_left_ne_nil hp _
  · exact List.append_ne_nil_of_left_ne_nil hp _

/-! ## Extensions -/

/-- The name is more than a dot and `ext`, and ends in these; `ext` has no dot of its own. -/
def HasExtension (name ext : Bytes) : Prop :=
  dot ∉ ext ∧ ∃ stem, stem ≠ [] ∧ name = stem ++ dot :: ext

theorem extensionOf?_eq_some_iff {name ext : Bytes} :
    extensionOf? name = some ext ↔ HasExtension name ext := by
  constructor
  · intro h
    have hsplit := List.takeWhile_append_dropWhile (p := (· ≠ dot)) (l := name.reverse)
    unfold extensionOf? at h
    split at h
    · rename_i last before rest hdrop
      cases h
      have hlast : last = dot := by
        have hne : name.reverse.dropWhile (· ≠ dot) ≠ [] := by rw [hdrop]; nofun
        simpa only [hdrop, List.head_cons, decide_eq_false_iff_not, not_not] using
          List.head_dropWhile_not (· ≠ dot) hne
      refine ⟨fun hmem => ?_, (before :: rest).reverse, by simp, ?_⟩
      · have hall := List.all_eq_true.1 List.all_takeWhile dot (List.mem_reverse.1 hmem)
        simp at hall
      · rw [hdrop, hlast] at hsplit
        refine (List.reverse_eq_iff.2 hsplit).symm.trans ?_
        simp
    · cases h
  · rintro ⟨hext, stem, hstem, rfl⟩
    have hpos : ∀ b ∈ ext.reverse, decide (b ≠ dot) = true := by
      intro b hb
      exact decide_eq_true fun he => hext (he ▸ List.mem_reverse.1 hb)
    have hreverse : (stem ++ dot :: ext).reverse = ext.reverse ++ dot :: stem.reverse := by simp
    obtain ⟨last, before, hrev⟩ :=
      List.exists_cons_of_ne_nil (List.reverse_ne_nil_iff.2 hstem)
    unfold extensionOf?
    rw [hreverse, List.dropWhile_append_of_pos hpos, List.takeWhile_append_of_pos hpos, hrev]
    simp

end Path
end BillOfMaterials
