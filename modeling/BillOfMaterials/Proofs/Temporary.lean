import BillOfMaterials.FileTree.Temporary
import BillOfMaterials.Proofs.Containment

/-!
# Temporary directories leave nothing behind

Work that keeps to a temporary directory leaves the tree exactly as it was: the same entries in the
same order. The directory was made where nothing stood, the work changed nothing outside it, and it
is removed with all that it holds.
-/
namespace BillOfMaterials.FileTree

open BillOfMaterials.Path (dot)

variable {t : FileTree} {p : Path} {loc : Location}

theorem remove_eq_self (h : ∀ entry ∈ t.entries, ¬loc <+: entry.1) : t.remove loc = t := by
  unfold remove
  rw [List.filter_eq_self.2]
  intro entry he
  rw [not_below.2 (h entry he)]
  rfl

theorem at?_eq_none (hne : loc ≠ []) (h : ∀ entry ∈ t.entries, ¬loc <+: entry.1)
    {other : Location} (ho : loc <+: other) : t.at? other = none := by
  have hother : other ≠ [] := by
    rintro rfl
    exact hne (List.prefix_nil.1 ho)
  unfold at?
  rw [if_neg hother]
  exact List.lookup_eq_none_iff.2 fun entry he =>
    bne_iff_ne.2 fun hc => h entry he (hc ▸ ho)

/-- What a vacancy is: the name that the path ends in, in a directory that the pieces before lead
to, with nothing there or below. -/
theorem vacancy?_eq_some (h : t.vacancy? p = some loc) :
    ∃ above directory name m, loc = directory ++ [name] ∧ p.named = above ++ [name] ∧
      t.Leads maxLinks (t.start p) above m directory ∧ name ≠ [dot] ∧ name ≠ [dot, dot] ∧
      name.length ≤ maxName ∧ ∀ entry ∈ t.entries, ¬loc <+: entry.1 := by
  unfold vacancy? at h
  split at h
  · rename_i directory name hf
    split at h
    · cases h
    · cases h
      obtain ⟨-, -, hsteps⟩ := locate_ok hf
      obtain ⟨above, m, ha, hl, hd, hu, hlen⟩ := leads_of_absent hsteps
      refine ⟨above, directory, name, m, rfl, ?_, hl, hd, hu, hlen, ?_⟩
      · rw [Path.steps_eq] at ha
        split at ha
        · exact absurd (List.append_inj' ha rfl).2 (by simpa using Ne.symm hd)
        · exact ha
      · intro entry he hc
        refine ‹¬_› (List.any_eq_true.2 ⟨entry, he, ?_⟩)
        exact List.isPrefixOf_iff_prefix.2 hc
  · cases h

/-- A new directory in a vacancy is private, and its path leads to it. -/
theorem private_vacancy (h : t.vacancy? p = some loc) :
    (t.put loc .directory).Private loc (t.put loc .directory) ∧
      ∃ m, (t.put loc .directory).Leads maxLinks ((t.put loc .directory).start p) p.named m
        loc := by
  obtain ⟨above, directory, name, m, rfl, hn, hl, hd, hu, hlen, hnone⟩ := vacancy?_eq_some h
  have hne : directory ++ [name] ≠ [] := by simp
  have hmade : (t.put (directory ++ [name]) .directory).at? (directory ++ [name]) =
      some .directory := at?_put_same t _ hne
  have hgrows : t.Grows (t.put (directory ++ [name]) .directory) :=
    .put_new (at?_eq_none hne hnone (List.prefix_refl _))
  refine ⟨⟨.refl _, ?_, rfl⟩, m, ?_⟩
  · intro other target ho hc
    by_cases he : other = directory ++ [name]
    · rw [he, hmade] at hc
      cases hc
    · rw [at?_put_other t _ he, at?_eq_none hne hnone ho] at hc
      cases hc
  · rw [hn, hgrows.start_eq]
    exact (hl.grows hgrows).append (.down hd hu hlen hmade .here)

/-- Work that keeps to the temporary directory leaves the tree as it was. -/
theorem withTemporary?_tree {α : Type} {work : FileTree → FileTree × α} {t' : FileTree} {answer : α}
    (h : t.withTemporary? p work = some (t', answer))
    (hw : ∀ {u : FileTree} {d : Location} {m : Nat},
      u.Leads maxLinks (u.start p) p.named m d → u.Private d u → u.Private d (work u).1) :
    t' = t := by
  obtain ⟨loc, hv, hr⟩ := Option.map_eq_some_iff.1 h
  obtain ⟨hp, m, hl⟩ := private_vacancy hv
  obtain ⟨above, directory, name, -, rfl, -, -, -, -, -, hnone⟩ := vacancy?_eq_some hv
  have hout := (hw hl hp).outside
  cases hr
  rw [hout, remove_put _ _ (List.prefix_refl _), remove_eq_self hnone]

end BillOfMaterials.FileTree
