import BillOfMaterials.Proofs.Changes

/-!
# Spellings without needless separators

The directories on the way to a file are asked for by paths that are spelled out from components.
Such a spelling is made of pieces of the path that it comes from. So it is no longer than that path,
holds no other bytes, does not end in a separator, and may be asked for wherever that path may.
-/
namespace BillOfMaterials

namespace Text

variable {α : Type} {sep : α}

/-- How long pieces are with a separator after each of them. -/
def extent (pieces : List (List α)) : Nat :=
  pieces.foldr (fun piece rest => piece.length + 1 + rest) 0

@[simp] theorem extent_cons (piece : List α) (pieces : List (List α)) :
    extent (piece :: pieces) = piece.length + 1 + extent pieces := rfl

theorem extent_le {pieces others : List (List α)} (h : pieces.Sublist others) :
    extent pieces ≤ extent others := by
  induction h with
  | slnil => exact Nat.le_refl _
  | cons piece _ ih =>
    rw [extent_cons]
    omega
  | cons_cons piece _ ih =>
    rw [extent_cons, extent_cons]
    omega

theorem extent_joinWith {pieces : List (List α)} (h : pieces ≠ []) :
    (joinWith [sep] pieces).length + 1 = extent pieces := by
  induction pieces with
  | nil => exact absurd rfl h
  | cons piece pieces ih =>
    cases pieces with
    | nil => simp [joinWith, extent]
    | cons next pieces =>
      have hrest := ih (List.cons_ne_nil _ _)
      rw [extent_cons, ← hrest, joinWith_cons_cons]
      simp only [List.length_append, List.length_singleton]
      omega

theorem extent_splitOn [BEq α] [LawfulBEq α] (s : List α) :
    extent (splitOn sep s) = s.length + 1 := by
  induction s with
  | nil => rfl
  | cons c rest ih =>
    by_cases hc : c = sep
    · subst hc
      rw [splitOn_cons_sep, extent_cons, ih, List.length_nil, List.length_cons]
      omega
    · obtain ⟨piece, pieces, hp, hs⟩ := splitOn_cons hc rest
      rw [hp, extent_cons] at ih
      rw [hs, extent_cons, List.length_cons, List.length_cons]
      omega

end Text

namespace Path

/-- The piece that a component is spelled by; the root is what stands before the first separator. -/
def Component.piece : Component → Bytes
  | .root => []
  | c => c.spelling

theorem Component.piece_eq_spelling {c : Component} (h : c ≠ .root) : c.piece = c.spelling := by
  cases c <;> first | exact absurd rfl h | rfl

variable {p : Path} {cs : List Component}

theorem map_piece_ordinary (h : ∀ c ∈ cs, c.IsOrdinary) :
    cs.map Component.piece = cs.map Component.spelling := by
  refine List.map_congr_left fun c hc => Component.piece_eq_spelling ?_
  rintro rfl
  exact h _ hc

/-- A path is made of the pieces of its components and of further ones that count for nothing. -/
theorem map_piece_components (p : Path) : (p.components.map Component.piece).Sublist p.pieces := by
  have hordinary : p.ordinary.map Component.piece =
      (p.pieces.filter (· ≠ [])).filter (· ≠ [dot]) := by
    rw [map_piece_ordinary fun c hc => isOrdinary_of_mem hc, map_spelling_ordinary, named]
  rw [components_eq, List.map_append, hordinary]
  have hsub (pieces : List Bytes) :
      ((pieces.filter (· ≠ [])).filter (· ≠ [dot])).Sublist pieces :=
    List.filter_sublist.trans List.filter_sublist
  unfold lead
  split
  · -- what stands before the first separator is empty
    rename_i habsolute
    obtain ⟨rest, hrest⟩ : ∃ rest, p.spelling = slash :: rest := by
      cases hs : p.spelling with
      | nil => simp [isAbsolute, hs] at habsolute
      | cons b rest => exact ⟨rest, by simpa [isAbsolute, hs] using habsolute⟩
    have hpieces : p.pieces = [] :: Text.splitOn slash rest := by
      rw [pieces, hrest, Text.splitOn_cons_sep]
    rw [hpieces, List.filter_cons_of_neg (by simp)]
    exact (hsub _).cons_cons []
  · split
    · rename_i hhere
      obtain ⟨rest, hrest⟩ := List.head?_eq_some_iff.1 hhere
      rw [hrest, List.filter_cons_of_pos (by decide), List.filter_cons_of_neg (by decide)]
      exact (hsub _).cons_cons [dot]
    · exact hsub _

theorem spelling_ofComponents (h : IsBeginning cs) (hroot : cs ≠ [.root]) :
    (ofComponents cs).spelling = Text.joinWith [slash] (cs.map Component.piece) := by
  cases cs with
  | nil => rfl
  | cons first rest =>
    have hrest := map_piece_ordinary h.2
    rw [List.map_cons, hrest]
    cases first with
    | root =>
      cases rest with
      | nil => exact absurd rfl hroot
      | cons c rest => simp [ofComponents, Text.joinWith, Component.piece]
    | here => rfl
    | up => rfl
    | name bytes => rfl

theorem pieces_ofBeginning (h : IsBeginning cs) (hne : cs ≠ []) (hroot : cs ≠ [.root]) :
    (ofComponents cs).pieces = cs.map Component.piece := by
  rw [pieces, spelling_ofComponents h hroot]
  refine Text.splitOn_joinWith (by simpa using hne) ?_
  intro piece hpiece
  obtain ⟨c, hc, rfl⟩ := List.mem_map.1 hpiece
  cases c with
  | root => exact List.not_mem_nil
  | here => decide
  | up => decide
  | name bytes =>
    have hname : (Component.name bytes).IsOrdinary := by
      cases cs with
      | nil => cases hc
      | cons first rest =>
        rcases List.mem_cons.1 hc with rfl | hc
        · rcases h.1 with hroot | hhere | hname
          · cases hroot
          · cases hhere
          · exact hname
        · exact h.2 _ hc
    exact hname.2.2.2

/-- Only the root is spelled by an empty piece, and nothing but the root ends in it. -/
theorem piece_ne_nil_of_getLast? {last : Component} (h : IsBeginning cs) (hroot : cs ≠ [.root])
    (hlast : cs.getLast? = some last) : last.piece ≠ [] := by
  cases cs with
  | nil => cases hlast
  | cons first rest =>
    have hshown : last = .here ∨ last.IsOrdinary := by
      cases rest with
      | nil =>
        cases hlast
        exact h.1.resolve_left fun he => hroot (by rw [he])
      | cons c rest =>
        rw [List.getLast?_cons_cons] at hlast
        exact .inr (h.2 last (List.mem_of_getLast? hlast))
    have hne : last ≠ .root := by
      rintro rfl
      exact hshown.elim nofun id
    rw [Component.piece_eq_spelling hne]
    exact (spelling_ne_nil hshown).1

theorem isUsable_iff : FileTree.isUsable p = true ↔
    p.spelling.length ≤ FileTree.maxPath ∧ (0 : UInt8) ∉ p.spelling := by
  simp [FileTree.isUsable]

section Beginning

variable (h : cs <+: p.components)

include h

theorem isBeginning_of_begins : IsBeginning cs := by
  rw [List.prefix_iff_eq_take.1 h]
  exact (isBeginning_components p).take _

theorem map_piece_beginning : (cs.map Component.piece).Sublist p.pieces :=
  (h.sublist.map _).trans (map_piece_components p)

variable (hne : cs ≠ []) (hroot : cs ≠ [.root])

include hne hroot

/-- What a path begins with is asked for by no more than the path. -/
theorem isUsable_beginning (hp : FileTree.isUsable p = true) :
    FileTree.isUsable (ofComponents cs) = true := by
  obtain ⟨hlength, hzero⟩ := isUsable_iff.1 hp
  have hsub := map_piece_beginning h
  have hspelling := spelling_ofComponents (isBeginning_of_begins h) hroot
  rw [isUsable_iff, hspelling]
  constructor
  · have hextent : (Text.joinWith [slash] (cs.map Component.piece)).length + 1 =
        Text.extent (cs.map Component.piece) := Text.extent_joinWith (by simpa using hne)
    have hle := Text.extent_le hsub
    have hwhole : Text.extent p.pieces = p.spelling.length + 1 := Text.extent_splitOn p.spelling
    omega
  · intro hmem
    rcases Text.mem_joinWith hmem with hslash | ⟨piece, hpiece, hmem⟩
    · exact absurd hslash (by decide)
    · exact hzero (Text.mem_of_mem_splitOn (hsub.subset hpiece) hmem)

/-- A path that is spelled out asks for no directory at its end. -/
theorem steps_beginning : (ofComponents cs).steps = (ofComponents cs).named := by
  have hbeginning := isBeginning_of_begins h
  unfold steps
  rw [if_neg]
  · rfl
  · rintro ⟨hslash, -⟩
    obtain ⟨above, habove⟩ := List.getLast?_eq_some_iff.1 hslash
    have hpieces := pieces_ofBeginning hbeginning hne hroot
    rw [pieces, habove, Text.splitOn_append_sep] at hpieces
    have hempty : (cs.map Component.piece).getLast? = some [] := by
      rw [← hpieces]
      exact List.getLast?_concat
    rw [List.getLast?_map] at hempty
    obtain ⟨last, hlast, hpiece⟩ := Option.map_eq_some_iff.1 hempty
    exact piece_ne_nil_of_getLast? hbeginning hroot hlast hpiece

end Beginning

end Path
end BillOfMaterials
