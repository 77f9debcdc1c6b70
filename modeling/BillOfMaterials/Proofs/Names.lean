import BillOfMaterials.Proofs.Places
import BillOfMaterials.Table

/-!
# What names are made of

The characters of a short name are characters of the archive's name. A display name holds no hyphen
and does not begin with a small ASCII letter, since its first letter was put in upper case; apart
from blanks and letters it holds what the short name holds.
-/
namespace BillOfMaterials

namespace Text

/-! ## Joined pieces -/

theorem head?_joinWith {α : Type} {sep piece : List α} {pieces : List (List α)} {c : α}
    (hsep : sep ≠ []) (h : c ∈ (joinWith sep (piece :: pieces)).head?) :
    c ∈ piece.head? ∨ c ∈ sep := by
  cases pieces with
  | nil => exact .inl h
  | cons next pieces =>
    rw [joinWith_cons_cons] at h
    cases piece with
    | nil =>
      rw [List.nil_append, List.head?_append_of_ne_nil _ hsep] at h
      exact .inr (List.mem_of_mem_head? h)
    | cons d piece => exact .inl h

/-! ## Upper case -/

/-- A large character stands behind the ASCII signs and digits and is no small ASCII letter. -/
def IsLarge (c : Char) : Prop := 0x41 ≤ c.toNat ∧ (c.toNat < 0x61 ∨ 0x7B ≤ c.toNat)

def AreLarge (first last : Nat) : Prop :=
  0x41 ≤ first ∧ (last < 0x61 ∨ 0x7B ≤ first) ∧
    (last < 0xD800 ∨ 0xDFFF < first ∧ last < 0x110000)

instance (first last : Nat) : Decidable (AreLarge first last) :=
  inferInstanceAs (Decidable (_ ∧ _ ∧ _))

theorem AreLarge.isLarge {first last n : Nat} (h : AreLarge first last) (hfirst : first ≤ n)
    (hlast : n ≤ last) : IsLarge (Char.ofNat n) := by
  obtain ⟨hsigns, hsmall, hvalid⟩ := h
  have hn : n.isValidChar := by
    unfold Nat.isValidChar
    omega
  have htoNat : (Char.ofNat n).toNat = n := by
    rw [Char.ofNat, dif_pos hn]
    rfl
  unfold IsLarge
  rw [htoNat]
  omega

theorem upperRuns_areLarge :
    ∀ run ∈ upperRuns, AreLarge run.2.2.2 (run.2.2.2 + (run.2.1 - run.1)) := by
  decide +kernel

theorem upperSequences_areLarge :
    ∀ entry ∈ upperSequences, ∀ n ∈ entry.2, AreLarge n n := by
  decide +kernel

theorem exists_run {n upper : Nat} {runs : List (Nat × Nat × Nat × Nat)}
    (h : upperInRuns n runs = some upper) :
    ∃ run ∈ runs, run.1 ≤ n ∧ n ≤ run.2.1 ∧ upper = run.2.2.2 + (n - run.1) := by
  induction runs with
  | nil => cases h
  | cons run runs ih =>
    obtain ⟨first, last, step, start⟩ := run
    unfold upperInRuns at h
    split at h
    · cases h
    · rename_i hfirst
      split at h
      · rename_i hlast
        split at h
        · cases h
          exact ⟨_, List.mem_cons_self, by omega, hlast, rfl⟩
        · cases h
      · obtain ⟨run, hmem, hrun⟩ := ih h
        exact ⟨run, List.mem_cons_of_mem _ hmem, hrun⟩

theorem upperInRuns_small {n : Nat} (hfirst : 0x61 ≤ n) (hlast : n ≤ 0x7A) :
    upperInRuns n upperRuns = some (0x41 + (n - 0x61)) := by
  rw [upperRuns, upperInRuns, if_neg (by omega), if_pos hlast, if_pos (Nat.mod_one _)]

/-- A character that is put in upper case becomes large, or it was no small ASCII letter. -/
theorem mem_upperCase {c d : Char} (h : d ∈ upperCase c) :
    IsLarge d ∨ d = c ∧ (c.toNat < 0x61 ∨ 0x7B ≤ c.toNat) := by
  unfold upperCase at h
  split at h
  · rename_i sequence hlookup
    obtain ⟨n, hn, rfl⟩ := List.mem_map.1 h
    have hlarge := upperSequences_areLarge _ (mem_of_lookup hlookup) n hn
    exact .inl (hlarge.isLarge (Nat.le_refl n) (Nat.le_refl n))
  split at h
  · rename_i n hruns
    obtain ⟨run, hrun, hfirst, hlast, rfl⟩ := exists_run hruns
    rw [List.mem_singleton.1 h]
    exact .inl ((upperRuns_areLarge run hrun).isLarge (by omega) (by omega))
  · rename_i hnone
    refine .inr ⟨List.mem_singleton.1 h, ?_⟩
    by_contra hsmall
    rw [upperInRuns_small (by omega) (by omega)] at hnone
    cases hnone

theorem upperCase_ne_nil (c : Char) : upperCase c ≠ [] := by
  have hne : ∀ entry ∈ upperSequences, entry.2 ≠ [] := by decide +kernel
  unfold upperCase
  split
  · rename_i sequence hlookup
    exact fun h => hne _ (mem_of_lookup hlookup) (List.map_eq_nil_iff.1 h)
  · split <;> exact List.cons_ne_nil _ _

theorem mem_capitalize {c : Char} {word : List Char} (h : c ∈ capitalize word) :
    IsLarge c ∨ c ∈ word := by
  cases word with
  | nil => cases h
  | cons d rest =>
    rcases List.mem_append.1 h with h | h
    · rcases mem_upperCase h with hlarge | ⟨rfl, -⟩
      · exact .inl hlarge
      · exact .inr List.mem_cons_self
    · exact .inr (List.mem_cons_of_mem d h)

theorem head?_capitalize {c : Char} {word : List Char} (h : c ∈ (capitalize word).head?) :
    c.toNat < 0x61 ∨ 0x7B ≤ c.toNat := by
  cases word with
  | nil => cases h
  | cons d rest =>
    have hd : c ∈ upperCase d := by
      rw [capitalize, List.head?_append_of_ne_nil _ (upperCase_ne_nil d)] at h
      exact List.mem_of_mem_head? h
    rcases mem_upperCase hd with hlarge | ⟨rfl, hsmall⟩
    · exact hlarge.2
    · exact hsmall

end Text

namespace DistributionName

open Text

/-! ## Display names -/

/-- Behind the first letter, `ee` and `profile` are replaced one after the other. -/
theorem displayWord_steps (word : List Char) :
    ∃ mid, Replaces ['e', 'e'] ['E', 'E'] (capitalize word) mid ∧
      Replaces ['p', 'r', 'o', 'f', 'i', 'l', 'e'] ['P', 'r', 'o', 'f', 'i', 'l', 'e'] mid
        (displayWord word) :=
  ⟨_, replaces_replaceAll (List.cons_ne_nil _ _) _ _,
    replaces_replaceAll (List.cons_ne_nil _ _) _ _⟩

theorem mem_displayWord {c : Char} {word : List Char} (h : c ∈ displayWord word) :
    c ∈ word ∨ 0x41 ≤ c.toNat := by
  have hE : ∀ c ∈ ['E', 'E'], 0x41 ≤ c.toNat := by simp
  have hP : ∀ c ∈ ['P', 'r', 'o', 'f', 'i', 'l', 'e'], 0x41 ≤ c.toNat := by simp
  obtain ⟨mid, hee, hprofile⟩ := displayWord_steps word
  rcases hprofile.mem h with h | h
  · rcases hee.mem h with h | h
    · rcases mem_capitalize h with hlarge | h
      · exact .inr hlarge.1
      · exact .inl h
    · exact .inr (hE c h)
  · exact .inr (hP c h)

/-- A display name holds blanks, letters and what else the short name holds beside hyphens. -/
theorem mem_displayName {c : Char} {short : List Char} (h : c ∈ displayName short) :
    c ∈ short ∧ c ≠ '-' ∨ c = ' ' ∨ 0x41 ≤ c.toNat := by
  rcases mem_joinWith h with h | ⟨piece, hpiece, h⟩
  · exact .inr (.inl (List.mem_singleton.1 h))
  · obtain ⟨word, hword, rfl⟩ := List.mem_map.1 hpiece
    rcases mem_displayWord h with hc | hc
    · refine .inl ⟨mem_of_mem_splitOn hword hc, ?_⟩
      rintro rfl
      exact not_mem_of_mem_splitOn hword hc
    · exact .inr (.inr hc)

theorem head?_displayWord {c : Char} {word : List Char} (h : c ∈ (displayWord word).head?) :
    c.toNat < 0x61 ∨ 0x7B ≤ c.toNat := by
  have hE : ∀ c ∈ ['E', 'E'].head?, c.toNat < 0x61 := by simp
  have hP : ∀ c ∈ ['P', 'r', 'o', 'f', 'i', 'l', 'e'].head?, c.toNat < 0x61 := by simp
  obtain ⟨mid, hee, hprofile⟩ := displayWord_steps word
  rcases hprofile.mem_head? (List.cons_ne_nil _ _) h with h | h
  · rcases hee.mem_head? (List.cons_ne_nil _ _) h with h | h
    · exact head?_capitalize h
    · exact .inl (hE c h)
  · exact .inl (hP c h)

/-- A display name does not begin with a small ASCII letter. -/
theorem head?_displayName {c : Char} {short : List Char} (h : c ∈ (displayName short).head?) :
    c.toNat < 0x61 ∨ 0x7B ≤ c.toNat := by
  unfold displayName at h
  cases hwords : splitOn '-' short with
  | nil => exact absurd hwords (splitOn_ne_nil short)
  | cons word words =>
    rw [hwords, List.map_cons] at h
    rcases head?_joinWith (List.cons_ne_nil _ _) h with h | h
    · exact head?_displayWord h
    · exact .inl (by rw [List.mem_singleton.1 h]; decide)

end DistributionName
end BillOfMaterials
