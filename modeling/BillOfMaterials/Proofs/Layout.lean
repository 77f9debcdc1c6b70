import BillOfMaterials.ArtifactIndex
import BillOfMaterials.Proofs.Encoding

/-!
# The layout of a local repository

A module is read off a path that lies `group/…/artifact/version/file` below the root, and off no
other path. What lies below the root is a matter of components: `/m2x` does not lie below `/m2`, and
a separator or a `.` more or less, in the path or in the root, changes nothing.

Every module has such a path. The path that spells out a group, an artifact, a version and a file
below a root is read back as these, whatever the root is.
-/
namespace BillOfMaterials

namespace Text

theorem bytes_join (sep : String) (texts : List String) :
    bytes (join sep texts) = joinWith (bytes sep) (texts.map bytes) := by
  unfold join
  induction texts with
  | nil => rfl
  | cons s texts ih =>
    cases texts with
    | nil => simp [joinWith]
    | cons next texts =>
      simp only [List.map_cons, joinWith, String.ofList_append, bytes_append,
        String.ofList_toList] at ih ⊢
      rw [ih]

end Text

namespace Path

variable {root path : Path} {cs : List Component}

theorem below?_eq_some_iff :
    below? root path = some cs ↔ path.components = root.components ++ cs := by
  unfold below?
  constructor
  · intro h
    split at h
    · rename_i hbegins
      obtain ⟨rest, hrest⟩ := List.isPrefixOf_iff_prefix.1 hbegins
      cases h
      rw [← hrest, List.drop_left]
    · cases h
  · intro h
    rw [h, if_pos (List.isPrefixOf_iff_prefix.2 ⟨cs, rfl⟩), List.drop_left]

/-! ## Spellings of one sequence of components -/

def IsNeedless (piece : Bytes) : Prop := piece = [] ∨ piece = [dot]

theorem ofPiece?_needless {piece : Bytes} (h : IsNeedless piece) :
    Component.ofPiece? piece = none :=
  if_pos h

theorem slash_not_mem_needless {piece : Bytes} (h : IsNeedless piece) : slash ∉ piece := by
  rcases h with rfl | rfl <;> decide

/-- A path does not change its components if it is cut at a separator and needless pieces are put
between the two parts. -/
theorem components_eq_of_pieces {p q : Path} (front back between : List Bytes) (hfront : front ≠ [])
    (hp : p.pieces = front ++ back) (hq : q.pieces = front ++ between ++ back)
    (habsolute : p.isAbsolute = q.isAbsolute) (h : ∀ piece ∈ between, IsNeedless piece) :
    q.components = p.components := by
  have hbetween : between.filterMap Component.ofPiece? = [] :=
    List.filterMap_eq_nil_iff.2 fun piece hpiece => ofPiece?_needless (h piece hpiece)
  have hlead : q.lead = p.lead := by
    unfold lead
    rw [habsolute, hp, hq, List.append_assoc, List.head?_append_of_ne_nil _ hfront,
      List.head?_append_of_ne_nil _ hfront]
  rw [components_eq, components_eq, hlead, ordinary, ordinary, hp, hq, List.filterMap_append,
    List.filterMap_append, hbetween, List.append_nil, List.filterMap_append]

/-- A needless piece behind a separator may be left out. -/
theorem components_needless {piece : Bytes} (h : IsNeedless piece) (before after : Bytes) :
    (Path.mk (before ++ slash :: (piece ++ slash :: after))).components =
      (Path.mk (before ++ slash :: after)).components := by
  refine components_eq_of_pieces _ _ [piece] (Text.splitOn_ne_nil before)
    (Text.splitOn_append_sep before after) ?_ ?_ (by simpa using h)
  · rw [pieces, Text.splitOn_append_sep, Text.splitOn_append_sep,
      Text.splitOn_of_not_mem (slash_not_mem_needless h), List.append_assoc]
  · cases before <;> rfl

/-- A separator at the end, with or without a `.`, may be left out if something stands before it. -/
theorem components_trailing {piece : Bytes} (h : IsNeedless piece) {p : Path}
    (hp : p.spelling ≠ []) :
    (Path.mk (p.spelling ++ slash :: piece)).components = p.components := by
  refine components_eq_of_pieces p.pieces [] [piece] (Text.splitOn_ne_nil _)
    (List.append_nil _).symm ?_ ?_ (by simpa using h)
  · rw [List.append_nil, pieces, Text.splitOn_append_sep,
      Text.splitOn_of_not_mem (slash_not_mem_needless h), pieces]
  · obtain ⟨spelling⟩ := p
    cases spelling with
    | nil => exact absurd rfl hp
    | cons b rest => rfl

/-! ## Components spelled out below a root -/

theorem isBeginning_of_ordinary (h : ∀ c ∈ cs, c.IsOrdinary) : IsBeginning cs := by
  cases cs with
  | nil => trivial
  | cons c rest =>
    obtain ⟨hc, hrest⟩ := List.forall_mem_cons.1 h
    exact ⟨.inr (.inr hc), hrest⟩

/-- Ordinary components that are spelled out below a root come after those of the root. The empty
root is no exception: the components themselves say how the path begins, and they say it alike. -/
theorem components_join_ofComponents (root : Path) (h : ∀ c ∈ cs, c.IsOrdinary) :
    (root.join (ofComponents cs)).components = root.components ++ cs := by
  have hbeginning := isBeginning_of_ordinary h
  have hrelative : (ofComponents cs).isAbsolute = false := by
    rw [isAbsolute_ofComponents hbeginning]
    cases cs with
    | nil => rfl
    | cons c rest =>
      have hc := h c List.mem_cons_self
      cases c <;> first | exact hc.elim | rfl
  by_cases hroot : root.spelling = []
  · obtain ⟨spelling⟩ := root
    subst hroot
    rw [join_eq hrelative, if_pos (.inl rfl)]
    exact components_ofComponents hbeginning
  · rw [components_join hrelative hroot, ordinary_eq, named_ofComponents hbeginning,
      ordinary_spelled h]

theorem ofString_join (texts : List String) :
    ofString (Text.join "/" texts) =
      ofComponents (texts.map fun s => Component.name (Text.bytes s)) := by
  have hnames : ofComponents (texts.map fun s => Component.name (Text.bytes s)) =
      ⟨Text.joinWith [slash] (texts.map Text.bytes)⟩ := by
    cases texts with
    | nil => rfl
    | cons s texts =>
      simp only [ofComponents, List.map_cons, List.map_map, Component.spelling]
      rfl
  rw [hnames, ofString, Text.bytes_join]
  rfl

theorem text_name (s : String) : (Component.name (Text.bytes s)).text = s :=
  Text.ofBytes_bytes s

/-- Nothing is replaced in the components of a path that is text. -/
theorem bytes_text_of_mem_components {c : Component} (h : path.isText = true)
    (hc : c ∈ path.components) : Text.bytes c.text = c.spelling := by
  cases c with
  | root => rfl
  | here => rfl
  | up => rfl
  | name bytes =>
    obtain ⟨s, rfl⟩ := exists_text_of_mem_components h hc
    exact congrArg Text.bytes (text_name s)

end Path

namespace ArtifactIndex

open BillOfMaterials.Path (Component slash IsNeedless)

/-- A list is read from its end: a file, a version, an artifact, and at least one more. -/
theorem reverse_eq_iff {α : Type} {cs : List α} {file version artifact segment : α}
    {above : List α} :
    cs.reverse = file :: version :: artifact :: segment :: above ↔
      cs = (segment :: above).reverse ++ [artifact, version, file] := by
  rw [List.reverse_eq_iff]
  simp

/-- A module is read off the components below the root. -/
theorem coordinateOf?_eq_some_iff {root path : Path} {c : Coordinate} :
    coordinateOf? root path = some c ↔
      ∃ (group : List Component) (artifact version file : Component), group ≠ [] ∧
        path.components = root.components ++ (group ++ [artifact, version, file]) ∧
        c = ⟨Text.join "." (group.map Component.text), artifact.text, .fixed version.text⟩ := by
  unfold coordinateOf?
  rw [Option.bind_eq_some_iff]
  constructor
  · rintro ⟨cs, hbelow, hmodule⟩
    split at hmodule
    · rename_i file version artifact segment above hreverse
      cases hmodule
      refine ⟨(segment :: above).reverse, artifact, version, file, by simp, ?_, rfl⟩
      rw [Path.below?_eq_some_iff.1 hbelow, reverse_eq_iff.1 hreverse]
    · cases hmodule
  · rintro ⟨group, artifact, version, file, hgroup, hcomponents, rfl⟩
    obtain ⟨segment, above, hsegments⟩ :=
      List.exists_cons_of_ne_nil (List.reverse_ne_nil_iff.2 hgroup)
    obtain rfl := List.reverse_eq_iff.1 hsegments
    refine ⟨_, Path.below?_eq_some_iff.2 hcomponents, ?_⟩
    rw [reverse_eq_iff.2 rfl]

theorem coordinateOf?_congr {root root' path path' : Path}
    (hroot : root.components = root'.components) (hpath : path.components = path'.components) :
    coordinateOf? root path = coordinateOf? root' path' := by
  unfold coordinateOf? Path.below?
  rw [hroot, hpath]

/-- The path that spells out a module below a root is read back as that module. -/
theorem coordinateOf?_join (root : Path) {group : List String} {artifact version file : String}
    (hgroup : group ≠ [])
    (h : ∀ s ∈ group ++ [artifact, version, file], (Component.name (Text.bytes s)).IsOrdinary) :
    coordinateOf? root
        (root.join (.ofString (Text.join "/" (group ++ [artifact, version, file])))) =
      some ⟨Text.join "." group, artifact, .fixed version⟩ := by
  have hordinary : ∀ c ∈ (group ++ [artifact, version, file]).map
      fun s => Component.name (Text.bytes s), c.IsOrdinary := by
    intro c hc
    obtain ⟨s, hs, rfl⟩ := List.mem_map.1 hc
    exact h s hs
  have htexts : (group.map fun s => Component.name (Text.bytes s)).map Component.text = group := by
    rw [List.map_map]
    exact (List.map_congr_left fun s _ => Path.text_name s).trans (List.map_id group)
  refine coordinateOf?_eq_some_iff.2 ⟨group.map fun s => .name (Text.bytes s),
    .name (Text.bytes artifact), .name (Text.bytes version), .name (Text.bytes file), ?_, ?_, ?_⟩
  · rwa [ne_eq, List.map_eq_nil_iff]
  · rw [Path.ofString_join, Path.components_join_ofComponents root hordinary, List.map_append]
    rfl
  · rw [htexts, Path.text_name, Path.text_name]

/-- A module is read off exactly those paths that have a group, an artifact, a version and a file
below the root; each part of it is the text of a component. Spellings of the same components, and
of the same root, are read alike. In a path that is text the parts of the module are the components
themselves, and every module whose parts are ordinary names is read off the path that spells it
out. -/
theorem coordinateOf?_layout (root path : Path) :
    (∀ c : Coordinate, coordinateOf? root path = some c ↔
      ∃ (group : List Component) (artifact version file : Component), group ≠ [] ∧
        path.components = root.components ++ (group ++ [artifact, version, file]) ∧
        c = ⟨Text.join "." (group.map Component.text), artifact.text, .fixed version.text⟩) ∧
    (path.isText = true → ∀ c ∈ path.components, Text.bytes c.text = c.spelling) ∧
    (∀ root' path' : Path, root.components = root'.components →
      path.components = path'.components →
      coordinateOf? root path = coordinateOf? root' path') ∧
    (∀ piece before after : Bytes, IsNeedless piece →
      coordinateOf? root ⟨before ++ slash :: (piece ++ slash :: after)⟩ =
        coordinateOf? root ⟨before ++ slash :: after⟩) ∧
    (∀ piece : Bytes, IsNeedless piece → path.spelling ≠ [] →
      coordinateOf? root ⟨path.spelling ++ slash :: piece⟩ = coordinateOf? root path) ∧
    (∀ (group : List String) (artifact version file : String), group ≠ [] →
      (∀ s ∈ group ++ [artifact, version, file], (Component.name (Text.bytes s)).IsOrdinary) →
      coordinateOf? root
          (root.join (.ofString (Text.join "/" (group ++ [artifact, version, file])))) =
        some ⟨Text.join "." group, artifact, .fixed version⟩) :=
  ⟨fun _ => coordinateOf?_eq_some_iff,
    fun htext _ hc => Path.bytes_text_of_mem_components htext hc,
    fun _ _ hroot hpath => coordinateOf?_congr hroot hpath,
    fun _ before after h => coordinateOf?_congr rfl (Path.components_needless h before after),
    fun _ h hpath => coordinateOf?_congr rfl (Path.components_trailing h hpath),
    fun _ _ _ _ hgroup h => coordinateOf?_join root hgroup h⟩

end ArtifactIndex
end BillOfMaterials
