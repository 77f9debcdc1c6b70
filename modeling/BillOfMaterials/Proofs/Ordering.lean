import BillOfMaterials.Coordinate
import Mathlib.Data.List.Basic

/-!
# What the order of coordinates tells apart

The order reads a module name, in which a colon joins group and artifact, and then the version. Names
of directories may hold colons, so one module name can be cut at a colon in several ways, and the order
does not see at which. Two coordinates of one version that cut one module name differently are the
only ones that are different and still not told apart.
-/
namespace BillOfMaterials

theorem Text.order_eq_iff (s t : String) : Text.order s t = .eq ↔ s = t := by
  unfold Text.order
  rw [Std.LawfulEqOrd.compare_eq_iff_eq]
  exact ⟨Text.bytes_injective, congrArg Text.bytes⟩

theorem Version.order_eq_iff (v w : Version) : v.order w = .eq ↔ v = w := by
  cases v with
  | fixed a =>
    cases w with
    | fixed b => simp [order, Text.order_eq_iff]
    | inherited b => simp [order]
  | inherited a =>
    cases w with
    | fixed b => simp [order]
    | inherited b => simp [order, Text.order_eq_iff]

namespace Coordinate

variable {a b : Coordinate}

/-- Coordinates that the order does not tell apart. -/
theorem order_eq_iff :
    order a b = .eq ↔ a.moduleName = b.moduleName ∧ a.version = b.version := by
  unfold order moduleOrder
  rw [Ordering.then_eq_eq, Std.LawfulEqOrd.compare_eq_iff_eq, moduleBytes_eq, moduleBytes_eq,
    Version.order_eq_iff]
  exact and_congr_left' ⟨Text.bytes_injective, congrArg Text.bytes⟩

/-- The group of `b` goes on after a colon at which that of `a` ends; what it goes on with belongs to the
artifact of `a`. -/
def CutsBefore (a b : Coordinate) : Prop :=
  ∃ between, b.group = a.group ++ ":" ++ between ∧ a.artifact = between ++ ":" ++ b.artifact

theorem CutsBefore.moduleName_eq (h : a.CutsBefore b) : a.moduleName = b.moduleName := by
  obtain ⟨between, hgroup, hartifact⟩ := h
  simp only [moduleName, hgroup, hartifact, String.append_assoc]

theorem CutsBefore.ne (h : a.CutsBefore b) : a ≠ b := by
  rintro rfl
  obtain ⟨between, hgroup, -⟩ := h
  have hlength := congrArg String.length hgroup
  simp only [String.length_append] at hlength
  have hcolon : ":".length = 1 := rfl
  omega

/-- The colon at which the one is cut stands in the group of the other, and the other way round in the
artifact. -/
theorem CutsBefore.colon_mem (h : a.CutsBefore b) :
    ':' ∈ b.group.toList ∧ ':' ∈ a.artifact.toList := by
  obtain ⟨between, hgroup, hartifact⟩ := h
  simp [hgroup, hartifact]

/-- The colon after a group that is the beginning of another group is the one that ends both, or it
stands in the other group. -/
theorem cutsBefore_of_append {rest : List Char} (hgroup : b.group.toList = a.group.toList ++ rest)
    (hartifact : ':' :: a.artifact.toList = rest ++ ':' :: b.artifact.toList) :
    (a.group = b.group ∧ a.artifact = b.artifact) ∨ a.CutsBefore b := by
  rcases List.cons_eq_append_iff.1 hartifact with ⟨rfl, hsame⟩ | ⟨between, rfl, hlonger⟩
  · obtain ⟨-, hsame⟩ := List.cons.inj hsame
    rw [List.append_nil] at hgroup
    exact .inl ⟨String.toList_inj.1 hgroup.symm, String.toList_inj.1 hsame.symm⟩
  · refine .inr ⟨String.ofList between, String.toList_inj.1 ?_, String.toList_inj.1 ?_⟩
    · simp [hgroup]
    · simp [hlonger]

/-- Coordinates of one module name have one group and one artifact, or cut it at different colons. -/
theorem moduleName_eq_iff :
    a.moduleName = b.moduleName ↔
      (a.group = b.group ∧ a.artifact = b.artifact) ∨ a.CutsBefore b ∨ b.CutsBefore a := by
  constructor
  · intro h
    have hchars : a.group.toList ++ ':' :: a.artifact.toList =
        b.group.toList ++ ':' :: b.artifact.toList := by
      simpa [moduleName] using congrArg String.toList h
    rcases List.append_eq_append_iff.1 hchars with ⟨rest, hb, ha⟩ | ⟨rest, ha, hb⟩
    · exact (cutsBefore_of_append hb ha).imp_right .inl
    · rcases cutsBefore_of_append ha hb with ⟨hgroup, hartifact⟩ | h
      · exact .inl ⟨hgroup.symm, hartifact.symm⟩
      · exact .inr (.inr h)
  · rintro (⟨hgroup, hartifact⟩ | h | h)
    · rw [moduleName, moduleName, hgroup, hartifact]
    · exact h.moduleName_eq
    · exact h.moduleName_eq.symm

theorem order_eq_iff_cutsBefore :
    order a b = .eq ↔ a = b ∨ a.version = b.version ∧ (a.CutsBefore b ∨ b.CutsBefore a) := by
  rw [order_eq_iff, moduleName_eq_iff]
  constructor
  · rintro ⟨⟨hgroup, hartifact⟩ | hcut, hversion⟩
    · obtain ⟨group, artifact, version⟩ := a
      cases hgroup
      cases hartifact
      cases hversion
      exact .inl rfl
    · exact .inr ⟨hversion, hcut⟩
  · rintro (rfl | ⟨hversion, hcut⟩)
    · exact ⟨.inl ⟨rfl, rfl⟩, rfl⟩
    · exact ⟨.inr hcut, hversion⟩

/-- The order tells all coordinates apart but those of one version that cut one module name at
different colons. It can only come to that where a colon stands in a group and in an artifact. -/
theorem order_agrees_iff (a b : Coordinate) :
    (order a b = .eq ↔ a = b ∨ a.version = b.version ∧ (a.CutsBefore b ∨ b.CutsBefore a)) ∧
      ((order a b = .eq ↔ a = b) ↔
        ¬(a.version = b.version ∧ (a.CutsBefore b ∨ b.CutsBefore a))) ∧
      ((':' ∉ a.group.toList ∧ ':' ∉ b.group.toList ∨
          ':' ∉ a.artifact.toList ∧ ':' ∉ b.artifact.toList) →
        (order a b = .eq ↔ a = b)) := by
  have hne (hcut : a.CutsBefore b ∨ b.CutsBefore a) : a ≠ b :=
    hcut.elim CutsBefore.ne fun h => h.ne.symm
  have hcolon (hcut : a.CutsBefore b ∨ b.CutsBefore a) :
      ¬(':' ∉ a.group.toList ∧ ':' ∉ b.group.toList ∨
        ':' ∉ a.artifact.toList ∧ ':' ∉ b.artifact.toList) := by
    rcases hcut with h | h
    · simp [h.colon_mem]
    · simp [h.colon_mem]
  refine ⟨order_eq_iff_cutsBefore, ?_, fun hnone => ?_⟩
  · rw [order_eq_iff_cutsBefore, or_iff_left_iff_imp]
    exact ⟨fun h hcut => hne hcut.2 (h hcut), fun h hcut => absurd hcut h⟩
  · rw [order_eq_iff_cutsBefore, or_iff_left_iff_imp]
    exact fun hcut => absurd hnone (hcolon hcut.2)

/-- The group `a:b` and the artifact `c` give the same module name as the group `a` and the artifact
`b:c`. -/
theorem colon_in_group_ties :
    let first : Coordinate := ⟨"a:b", "c", .fixed "1"⟩
    let second : Coordinate := ⟨"a", "b:c", .fixed "1"⟩
    order first second = .eq ∧ first ≠ second := by
  decide

end Coordinate
end BillOfMaterials
