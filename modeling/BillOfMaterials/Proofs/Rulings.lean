import BillOfMaterials.NamingRule
import BillOfMaterials.Proofs.Replacing

/-!
# What the naming rules answer

A listed name is answered by its own rule, whatever the settings are. Any other name is answered by
the family that it begins like. No name begins like both families, so it does not matter which of
them is asked first.

The settings decide where the artifact name of a project module ends: where the release line first
stands behind a hyphen, or before the extension. Both are free texts and may occur anywhere in the
name, but neither of them can begin inside of the name of the part that the module belongs to, which
has no hyphen and no dot.
-/
namespace BillOfMaterials

namespace Text

/-! ## Cutting -/

section Cut

variable {marker before after tail s stem : List Char}

/-- What is cut off stands before the first occurrence of the marker. -/
theorem cutAt_eq_some (h : cutAt marker s = some (before, after)) :
    s = before ++ marker ++ after ∧
      ∀ front, front ++ marker <+: s → before.length ≤ front.length := by
  induction s generalizing before after with
  | nil =>
    unfold cutAt at h
    split at h
    · rename_i hempty
      cases h
      rw [List.isEmpty_iff.1 hempty]
      exact ⟨rfl, fun front _ => Nat.zero_le _⟩
    · cases h
  | cons c rest ih =>
    unfold cutAt at h
    split at h
    · rename_i hhere
      cases h
      obtain ⟨after, hafter⟩ := List.isPrefixOf_iff_prefix.1 hhere
      rw [← hafter, List.drop_left]
      exact ⟨rfl, fun front _ => Nat.zero_le _⟩
    · rename_i hhere
      obtain ⟨⟨before', after'⟩, hcut, heq⟩ := Option.map_eq_some_iff.1 h
      cases heq
      obtain ⟨hrest, hfirst⟩ := ih hcut
      refine ⟨by rw [hrest]; rfl, fun front hfront => ?_⟩
      cases front with
      | nil => exact absurd (List.isPrefixOf_iff_prefix.2 hfront) hhere
      | cons d front => exact Nat.succ_le_succ (hfirst front (List.cons_prefix_cons.1 hfront).2)

theorem cutAt_eq_none (h : cutAt marker s = none) (front : List Char) : ¬front ++ marker <+: s := by
  induction s generalizing front with
  | nil =>
    intro hfront
    obtain ⟨-, rfl⟩ := List.append_eq_nil_iff.1 (List.prefix_nil.1 hfront)
    cases h
  | cons c rest ih =>
    unfold cutAt at h
    split at h
    · cases h
    · rename_i hhere
      intro hfront
      cases front with
      | nil => exact hhere (List.isPrefixOf_iff_prefix.2 hfront)
      | cons d front =>
        exact ih (Option.map_eq_none_iff.1 h) front (List.cons_prefix_cons.1 hfront).2

theorem dropEnd?_eq_some (h : dropEnd? tail s = some stem) : s = stem ++ tail := by
  unfold dropEnd? at h
  split at h
  · rename_i hends
    cases h
    obtain ⟨front, rfl⟩ := List.isSuffixOf_iff_suffix.1 hends
    rw [List.length_append, Nat.add_sub_cancel, List.take_left]
  · cases h

theorem dropEnd?_eq_none (h : dropEnd? tail s = none) (stem : List Char) : s ≠ stem ++ tail := by
  unfold dropEnd? at h
  split at h
  · cases h
  · rename_i hends
    rintro rfl
    exact hends (List.isSuffixOf_iff_suffix.2 (List.suffix_append stem tail))

end Cut

/-- The text `marker` stands in `s` right behind `front`. -/
def StandsBehind (marker s front : String) : Prop := ∃ rest, s = front ++ marker ++ rest

/-- Where `front` ends, `marker` stands in `s` for the first time. -/
structure EndsAtFirst (marker s front : String) : Prop where
  stands : StandsBehind marker s front
  first : ∀ other, StandsBehind marker s other → front.length ≤ other.length

theorem eq_append_iff {s a b : String} : s = a ++ b ↔ s.toList = a.toList ++ b.toList := by
  rw [← String.toList_inj, String.toList_append]

theorem begins_iff {s front : String} :
    (∃ rest, s = front ++ rest) ↔ front.toList <+: s.toList := by
  constructor
  · rintro ⟨rest, rfl⟩
    rw [String.toList_append]
    exact List.prefix_append _ _
  · rintro ⟨rest, hrest⟩
    exact ⟨String.ofList rest, eq_append_iff.2 (by rw [String.toList_ofList, hrest])⟩

theorem standsBehind_iff {marker s front : String} :
    StandsBehind marker s front ↔ front.toList ++ marker.toList <+: s.toList := by
  rw [StandsBehind, begins_iff, String.toList_append]

theorem startsWith_iff {s front : String} :
    startsWith s front = true ↔ ∃ rest, s = front ++ rest := by
  rw [startsWith, List.isPrefixOf_iff_prefix, begins_iff]

end Text

namespace NamingRule

open Text

variable {settings : Settings} {name artifact : String}

/-! ## Listed names -/

theorem byExactName_of_mem {c : Coordinate} (h : (name, c) ∈ exactNames) :
    byExactName name = some c := by
  have hall : ∀ entry ∈ exactNames, byExactName entry.1 = some entry.2 := by decide
  exact hall _ h

theorem byExactName_of_not_mem (h : name ∉ exactNames.map Prod.fst) : byExactName name = none := by
  unfold byExactName
  rw [List.lookup_eq_none_iff]
  intro entry hentry
  rw [bne_iff_ne]
  rintro rfl
  exact h (List.mem_map_of_mem hentry)

/-! ## Families -/

/-- A name that begins like the compiler does not begin like a module of the project. -/
theorem byProjectFamily_of_compiler {rest : String} (h : name = "ecj-" ++ rest) :
    byProjectFamily settings name = none := by
  have hhead : name.toList.head? = some 'e' := by
    rw [h, String.toList_append]
    rfl
  have hnot (part : String) (c : Char) (hpart : part.toList.head? = some c) (hc : c ≠ 'e') :
      ¬startsWith name part = true := by
    rw [startsWith_iff]
    rintro ⟨more, rfl⟩
    rw [String.toList_append, List.head?_append, hpart] at hhead
    exact hc (Option.some.inj hhead)
  unfold byProjectFamily
  rw [if_neg]
  rw [Bool.or_eq_true]
  exact not_or.2 ⟨hnot "openejb-" 'o' rfl (by decide), hnot "tomee-" 't' rfl (by decide)⟩

theorem byCompilerFamily_of_begins {rest : String} (h : name = "ecj-" ++ rest) :
    byCompilerFamily settings name =
      some ⟨"org.eclipse.jdt", "ecj", .fixed settings.ecjVersion⟩ :=
  if_pos (startsWith_iff.2 ⟨rest, h⟩)

theorem byCompilerFamily_of_not_begins (h : ¬∃ rest, name = "ecj-" ++ rest) :
    byCompilerFamily settings name = none :=
  if_neg (mt startsWith_iff.1 h)

theorem byProjectFamily_of_begins
    (h : ∃ rest, name = "openejb-" ++ rest ∨ name = "tomee-" ++ rest) :
    byProjectFamily settings name =
      some (projectModuleNamed (projectArtifact settings name)) := by
  refine if_pos ?_
  rw [Bool.or_eq_true, startsWith_iff, startsWith_iff]
  rwa [exists_or] at h

theorem byProjectFamily_of_not_begins
    (h : ¬∃ rest, name = "openejb-" ++ rest ∨ name = "tomee-" ++ rest) :
    byProjectFamily settings name = none := by
  refine if_neg ?_
  rw [Bool.or_eq_true, startsWith_iff, startsWith_iff]
  rwa [exists_or] at h

/-! ## The artifact name of a project module -/

/-- `artifact` is the artifact name that the settings give to a project module whose file is called
`name`. -/
inductive NamesArtifact (settings : Settings) (name : String) : String → Prop
  /-- The release line stands in the name; the artifact name ends before its hyphen. -/
  | released {artifact : String} :
      EndsAtFirst ("-" ++ settings.releaseLine) name artifact → NamesArtifact settings name artifact
  /-- It does not, and the artifact name ends before the extension. -/
  | unreleased {artifact : String} :
      (∀ front, ¬StandsBehind ("-" ++ settings.releaseLine) name front) →
      name = artifact ++ ("." ++ settings.binaryExtension) → NamesArtifact settings name artifact
  /-- The name has neither of them. -/
  | bare :
      (∀ front, ¬StandsBehind ("-" ++ settings.releaseLine) name front) →
      (∀ stem, name ≠ stem ++ ("." ++ settings.binaryExtension)) → NamesArtifact settings name name

theorem namesArtifact_projectArtifact (settings : Settings) (name : String) :
    NamesArtifact settings name (projectArtifact settings name) := by
  have hmarker : ("-" ++ settings.releaseLine).toList = '-' :: settings.releaseLine.toList :=
    String.toList_append
  have hsuffix :
      ("." ++ settings.binaryExtension).toList = '.' :: settings.binaryExtension.toList :=
    String.toList_append
  unfold projectArtifact
  split
  · rename_i before after hcut
    obtain ⟨hname, hfirst⟩ := cutAt_eq_some hcut
    refine .released ⟨?_, fun other hother => ?_⟩
    · rw [standsBehind_iff, String.toList_ofList, hmarker, hname]
      exact List.prefix_append _ _
    · rw [standsBehind_iff, hmarker] at hother
      rw [String.length_ofList, ← String.length_toList]
      exact hfirst _ hother
  · rename_i hcut
    have hnone (front : String) : ¬StandsBehind ("-" ++ settings.releaseLine) name front := by
      rw [standsBehind_iff, hmarker]
      exact cutAt_eq_none hcut _
    split
    · rename_i stem hstem
      refine .unreleased hnone (eq_append_iff.2 ?_)
      rw [String.toList_ofList, hsuffix]
      exact dropEnd?_eq_some hstem
    · rename_i hstem
      refine .bare hnone fun stem hname => ?_
      rw [eq_append_iff, hsuffix] at hname
      exact dropEnd?_eq_none hstem _ hname

theorem NamesArtifact.begins (h : NamesArtifact settings name artifact) :
    ∃ rest, name = artifact ++ rest := by
  cases h with
  | released hfirst =>
    obtain ⟨rest, hname⟩ := hfirst.stands
    exact ⟨_, hname.trans (String.append_assoc ..)⟩
  | unreleased _ hname => exact ⟨_, hname⟩
  | bare _ _ => exact ⟨"", String.append_empty.symm⟩

/-- It keeps what the file name has before its first hyphen, if no dot stands there. -/
theorem NamesArtifact.keeps (h : NamesArtifact settings name artifact) {part more : String}
    (hname : name = part ++ "-" ++ more) (hhyphen : '-' ∉ part.toList) (hdot : '.' ∉ part.toList) :
    ∃ rest, artifact = part ++ rest := by
  have hstop {stop : Char} {rest : String} (hpart : stop ∉ part.toList)
      (hrest : ∀ c ∈ rest.toList.head?, c = stop) (hcut : name = artifact ++ rest) :
      ∃ rest, artifact = part ++ rest := by
    rw [begins_iff]
    refine prefix_of_stop hpart hrest ?_
    rw [← String.toList_append, ← hcut, ← begins_iff]
    exact ⟨"-" ++ more, hname.trans (String.append_assoc ..)⟩
  cases h with
  | released hfirst =>
    obtain ⟨rest, hcut⟩ := hfirst.stands
    refine hstop hhyphen ?_ (hcut.trans (String.append_assoc ..))
    rw [String.toList_append, String.toList_append]
    exact fun c hc => (Option.some.inj hc).symm
  | unreleased _ hcut =>
    refine hstop hdot ?_ hcut
    rw [String.toList_append]
    exact fun c hc => (Option.some.inj hc).symm
  | bare _ _ => exact ⟨"-" ++ more, hname.trans (String.append_assoc ..)⟩

/-- The project family answers only for names that begin like it, with an artifact name. -/
theorem of_ruling?_projectModule {c : Coordinate}
    (h : ruling? settings name = some (c, .projectModule)) :
    c.artifact = projectArtifact settings name ∧
      ∃ rest, name = "openejb-" ++ rest ∨ name = "tomee-" ++ rest := by
  unfold ruling? at h
  rcases Option.or_eq_some_iff.1 h with hlisted | ⟨-, h⟩
  · obtain ⟨_, -, heq⟩ := Option.map_eq_some_iff.1 hlisted
    cases heq
  rcases Option.or_eq_some_iff.1 h with hcompiler | ⟨-, hproject⟩
  · obtain ⟨_, -, heq⟩ := Option.map_eq_some_iff.1 hcompiler
    cases heq
  · obtain ⟨_, hanswer, heq⟩ := Option.map_eq_some_iff.1 hproject
    cases heq
    by_cases hbegins : ∃ rest, name = "openejb-" ++ rest ∨ name = "tomee-" ++ rest
    · rw [byProjectFamily_of_begins hbegins] at hanswer
      cases hanswer
      exact ⟨rfl, hbegins⟩
    · rw [byProjectFamily_of_not_begins hbegins] at hanswer
      cases hanswer

/-- At most one of the two families answers. -/
theorem families_or_comm (settings : Settings) (name : String) :
    ((byCompilerFamily settings name).map (·, NamingRule.eclipseCompiler)).or
        ((byProjectFamily settings name).map (·, .projectModule)) =
      ((byProjectFamily settings name).map (·, NamingRule.projectModule)).or
        ((byCompilerFamily settings name).map (·, .eclipseCompiler)) := by
  by_cases hbegins : ∃ rest, name = "ecj-" ++ rest
  · obtain ⟨rest, hname⟩ := hbegins
    rw [byProjectFamily_of_compiler hname, Option.map_none, Option.or_none, Option.none_or]
  · rw [byCompilerFamily_of_not_begins hbegins, Option.map_none, Option.or_none, Option.none_or]

/-- What the rules answer for a name. A listed name has its coordinate under all settings. Any other
name is answered by the compiler family or by the project family if it begins so, and not answered
if it begins otherwise; asking the two families in the other order gives the same. The project
family answers with an artifact name that the file name begins with, which keeps the name of the
part and ends at the release line, or else at the extension, if there is one. -/
theorem ruling?_rules (settings : Settings) (name : String) :
    (∀ c, (name, c) ∈ exactNames →
      ∀ other : Settings, ruling? other name = some (c, .exactName)) ∧
    (name ∉ exactNames.map Prod.fst →
      ((∃ rest, name = "ecj-" ++ rest) → ruling? settings name =
        some (⟨"org.eclipse.jdt", "ecj", .fixed settings.ecjVersion⟩, .eclipseCompiler)) ∧
      ((∃ rest, name = "openejb-" ++ rest ∨ name = "tomee-" ++ rest) → ∃ artifact,
        ruling? settings name = some (⟨"org.apache.tomee", artifact, .project⟩, .projectModule)) ∧
      ((¬∃ rest, name = "ecj-" ++ rest) →
        (¬∃ rest, name = "openejb-" ++ rest ∨ name = "tomee-" ++ rest) →
        ruling? settings name = none)) ∧
    ruling? settings name = ((byExactName name).map (·, .exactName)).or
      (((byProjectFamily settings name).map (·, .projectModule)).or
        ((byCompilerFamily settings name).map (·, .eclipseCompiler))) ∧
    ∀ c, ruling? settings name = some (c, .projectModule) →
      NamesArtifact settings name c.artifact ∧ (∃ rest, name = c.artifact ++ rest) ∧
        ∃ rest, c.artifact = "openejb" ++ rest ∨ c.artifact = "tomee" ++ rest := by
  refine ⟨fun c hlisted other => ?_, fun hunlisted => ?_, ?_, fun c hc => ?_⟩
  · rw [ruling?, byExactName_of_mem hlisted, Option.map_some, Option.some_or]
  · rw [ruling?, byExactName_of_not_mem hunlisted, Option.map_none, Option.none_or]
    refine ⟨fun ⟨rest, hname⟩ => ?_, fun hproject => ?_, fun hnot hnot' => ?_⟩
    · rw [byCompilerFamily_of_begins hname, Option.map_some, Option.some_or]
    · rw [families_or_comm, byProjectFamily_of_begins hproject, Option.map_some, Option.some_or]
      exact ⟨_, rfl⟩
    · rw [byCompilerFamily_of_not_begins hnot, byProjectFamily_of_not_begins hnot',
        Option.map_none, Option.map_none, Option.or_none]
  · rw [ruling?, families_or_comm]
  · obtain ⟨hartifact, rest, hbegins⟩ := of_ruling?_projectModule hc
    have hnames : NamesArtifact settings name c.artifact :=
      hartifact ▸ namesArtifact_projectArtifact settings name
    refine ⟨hnames, hnames.begins, ?_⟩
    rcases hbegins with hname | hname
    · obtain ⟨more, hmore⟩ : ∃ more, c.artifact = "openejb" ++ more :=
        hnames.keeps hname (by decide) (by decide)
      exact ⟨more, .inl hmore⟩
    · obtain ⟨more, hmore⟩ : ∃ more, c.artifact = "tomee" ++ more :=
        hnames.keeps hname (by decide) (by decide)
      exact ⟨more, .inr hmore⟩

end NamingRule
end BillOfMaterials
