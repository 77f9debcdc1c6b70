import BillOfMaterials.Proofs.Substitution

/-!
# Reading dependencies back

A dependency is written without escapes. Its values may hold line breaks, quotes, a `>` and anything
that looks like indentation; but as long as they hold no `<`, each value ends at the next one, and so
the text determines them, block by block. Behind the version the two styles go on differently, so the
first block tells the style as well. The text says no more than that: a fixed version that is
spelled like a property is not told from the property.
-/
namespace BillOfMaterials

namespace Coordinate

/-- No value of the coordinate holds a `<`. -/
structure IsPlain (c : Coordinate) : Prop where
  group : '<' ∉ c.group.toList
  artifact : '<' ∉ c.artifact.toList
  version : '<' ∉ c.version.render.toList

/-- The coordinates agree in their group, their artifact and the text of their version. -/
structure SpelledAlike (c d : Coordinate) : Prop where
  group : c.group = d.group
  artifact : c.artifact = d.artifact
  version : c.version.render = d.version.render

instance (c : Coordinate) : Decidable c.IsPlain :=
  decidable_of_iff
    ('<' ∉ c.group.toList ∧ '<' ∉ c.artifact.toList ∧ '<' ∉ c.version.render.toList)
    ⟨fun ⟨hgroup, hartifact, hversion⟩ => ⟨hgroup, hartifact, hversion⟩,
      fun h => ⟨h.group, h.artifact, h.version⟩⟩

end Coordinate

namespace Bom

open Coordinate

/-! ## One block -/

/-- What follows the line of the version. -/
def ending : Style → List Char
  | .pinned => exclusionBlock.toList ++ "    </dependency>\n".toList
  | .managed => "    </dependency>\n".toList

theorem ending_pinned :
    ending .pinned = exclusionBlock.toList ++ "    </dependency>\n".toList := rfl

theorem ending_managed : ending .managed = "    </dependency>\n".toList := rfl

/-- A dependency with its three values, each up to the `<` behind it. -/
theorem toList_dependency (style : Style) (c : Coordinate) :
    (dependency style c).toList =
      ("    <dependency>\n".toList ++ "      <groupId>".toList) ++
        (c.group.toList ++ '<' :: (("/groupId>\n".toList ++ "      <artifactId>".toList) ++
          (c.artifact.toList ++ '<' :: (("/artifactId>\n".toList ++ "      <version>".toList) ++
            (c.version.render.toList ++ '<' :: ("/version>\n".toList ++ ending style)))))) := by
  have hgroup : "</groupId>\n".toList = '<' :: "/groupId>\n".toList := by decide +kernel
  have hartifact : "</artifactId>\n".toList = '<' :: "/artifactId>\n".toList := by decide +kernel
  have hversion : "</version>\n".toList = '<' :: "/version>\n".toList := by decide +kernel
  unfold dependency
  cases style <;>
    simp only [ending_pinned, ending_managed, String.toList_append, String.append_empty, hgroup,
      hartifact, hversion, List.append_assoc, List.cons_append]

/-- The styles differ in the line behind the version. -/
theorem exclusionBlock_append_ne (rest rest' : List Char) :
    exclusionBlock.toList ++ rest ≠ "    </dependency>\n".toList ++ rest' := by
  unfold exclusionBlock
  simp only [String.toList_append, List.append_assoc]
  intro h
  have hline := congrArg (List.take 5) h
  have hlong : 5 ≤ "      <exclusions>\n".toList.length ∧
      5 ≤ "    </dependency>\n".toList.length := by decide +kernel
  rw [List.take_append_of_le_length hlong.1, List.take_append_of_le_length hlong.2] at hline
  exact absurd hline (by decide +kernel)

theorem ending_append_inj {style style' : Style} {rest rest' : List Char}
    (h : ending style ++ rest = ending style' ++ rest') : style = style' ∧ rest = rest' := by
  cases style <;> cases style'
  case pinned.pinned | managed.managed => exact ⟨rfl, List.append_cancel_left h⟩
  case pinned.managed =>
    rw [ending_pinned, ending_managed, List.append_assoc] at h
    exact absurd h (exclusionBlock_append_ne _ _)
  case managed.pinned =>
    rw [ending_pinned, ending_managed, List.append_assoc] at h
    exact absurd h.symm (exclusionBlock_append_ne _ _)

/-- A block of plain values is read back, whatever follows it. -/
theorem dependency_append_inj {style style' : Style} {c d : Coordinate} {rest rest' : List Char}
    (hc : c.IsPlain) (hd : d.IsPlain)
    (h : (dependency style c).toList ++ rest = (dependency style' d).toList ++ rest') :
    c.SpelledAlike d ∧ style = style' ∧ rest = rest' := by
  rw [toList_dependency, toList_dependency] at h
  simp only [List.append_assoc, List.cons_append, List.append_cancel_left_eq] at h
  obtain ⟨hgroup, h⟩ := Text.append_sep_inj hc.group hd.group h
  simp only [List.append_cancel_left_eq] at h
  obtain ⟨hartifact, h⟩ := Text.append_sep_inj hc.artifact hd.artifact h
  simp only [List.append_cancel_left_eq] at h
  obtain ⟨hversion, h⟩ := Text.append_sep_inj hc.version hd.version h
  obtain ⟨hstyle, hrest⟩ := ending_append_inj (List.append_cancel_left h)
  exact ⟨⟨String.toList_inj.1 hgroup, String.toList_inj.1 hartifact, String.toList_inj.1 hversion⟩,
    hstyle, hrest⟩

theorem dependency_congr {c d : Coordinate} (h : c.SpelledAlike d) (style : Style) :
    dependency style c = dependency style d := by
  unfold dependency
  rw [h.group, h.artifact, h.version]

/-! ## All blocks -/

theorem toList_dependencies_cons (style : Style) (c : Coordinate) (cs : List Coordinate) :
    (dependencies style (c :: cs)).toList =
      (dependency style c).toList ++ (dependencies style cs).toList := by
  simp [dependencies]

theorem dependencies_cons_ne_nil (style : Style) (c : Coordinate) (cs : List Coordinate) :
    (dependencies style (c :: cs)).toList ≠ [] := by
  rw [toList_dependencies_cons, toList_dependency]
  simp only [List.append_assoc]
  exact List.append_ne_nil_of_left_ne_nil (by decide) _

/-- Dependencies of plain values are one text exactly if they are as many, agree one by one in what
they spell, and have one style, where there are any. -/
theorem dependencies_eq_iff {style style' : Style} {cs ds : List Coordinate}
    (hcs : ∀ c ∈ cs, c.IsPlain) (hds : ∀ d ∈ ds, d.IsPlain) :
    dependencies style cs = dependencies style' ds ↔
      List.Forall₂ SpelledAlike cs ds ∧ (style = style' ∨ cs = [] ∧ ds = []) := by
  rw [← String.toList_inj]
  constructor
  · intro h
    induction cs generalizing ds with
    | nil =>
      cases ds with
      | nil => exact ⟨.nil, .inr ⟨rfl, rfl⟩⟩
      | cons d ds => exact absurd h.symm (dependencies_cons_ne_nil style' d ds)
    | cons c cs ih =>
      cases ds with
      | nil => exact absurd h (dependencies_cons_ne_nil style c cs)
      | cons d ds =>
        rw [List.forall_mem_cons] at hcs hds
        rw [toList_dependencies_cons, toList_dependencies_cons] at h
        obtain ⟨hspelled, hstyle, hrest⟩ := dependency_append_inj hcs.1 hds.1 h
        exact ⟨.cons hspelled (ih hcs.2 hds.2 hrest).1, .inl hstyle⟩
  · rintro ⟨hspelled, hstyle⟩
    induction hspelled with
    | nil => simp [dependencies]
    | cons hcd _ ih =>
      rw [List.forall_mem_cons] at hcs hds
      obtain rfl : style = style' := hstyle.resolve_right (by simp)
      rw [toList_dependencies_cons, toList_dependencies_cons, dependency_congr hcd,
        ih hcs.2 hds.2 (.inl rfl)]

/-- Two modules; the version of the first one is spelled like a property. -/
def spelledOut : List Coordinate :=
  [⟨"org.a", "first>\n      ", .fixed "$\x7bv\x7d"⟩, ⟨"org.a", "\"second\"", .fixed "1.0"⟩]

/-- The same modules, with the property itself. -/
def withProperty : List Coordinate :=
  [⟨"org.a", "first>\n      ", .inherited "v"⟩, ⟨"org.a", "\"second\"", .fixed "1.0"⟩]

theorem spelledOut_reads_alike :
    spelledOut ≠ withProperty ∧
      dependencies .managed spelledOut = dependencies .managed withProperty ∧
      dependencies .pinned spelledOut ≠ dependencies .managed withProperty := by
  have hplain : (∀ c ∈ spelledOut, c.IsPlain) ∧ ∀ c ∈ withProperty, c.IsPlain := by
    decide +kernel
  have halike : List.Forall₂ SpelledAlike spelledOut withProperty :=
    .cons ⟨rfl, rfl, by decide⟩ (.cons ⟨rfl, rfl, rfl⟩ .nil)
  refine ⟨by decide, ?_, fun h => ?_⟩
  · exact (dependencies_eq_iff hplain.1 hplain.2).2 ⟨halike, .inl rfl⟩
  · rcases ((dependencies_eq_iff hplain.1 hplain.2).1 h).2 with hstyle | ⟨hnone, -⟩
    · cases hstyle
    · cases hnone

end Bom
end BillOfMaterials
