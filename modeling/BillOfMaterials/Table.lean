/-!
# Tables

A table is a list of keys with values in which each key is looked up from the front. Where no key
stands twice, its order does not matter.
-/
namespace BillOfMaterials

variable {α β : Type} [BEq α] [LawfulBEq α] {table other : List (α × β)} {a : α} {b : β}

theorem mem_of_lookup (h : table.lookup a = some b) : (a, b) ∈ table := by
  obtain ⟨before, after, rfl, -⟩ := List.lookup_eq_some_iff.1 h
  exact List.mem_append_right before List.mem_cons_self

theorem lookup_iff_mem (h : (table.map (·.1)).Nodup) :
    table.lookup a = some b ↔ (a, b) ∈ table := by
  refine ⟨mem_of_lookup, ?_⟩
  intro hmem
  obtain ⟨front, back, rfl⟩ := List.append_of_mem hmem
  rw [List.lookup_eq_some_iff]
  refine ⟨front, back, rfl, ?_⟩
  intro entry hentry
  rw [List.map_append, List.map_cons] at h
  have hne : a ∉ front.map (·.1) := fun hin =>
    (List.nodup_append.1 h).2.2 a hin a List.mem_cons_self rfl
  exact bne_iff_ne.2 fun heq => hne (heq ▸ List.mem_map_of_mem hentry)

theorem lookup_perm (hperm : other.Perm table) (h : (table.map (·.1)).Nodup) :
    other.lookup a = table.lookup a := by
  have hother : (other.map (·.1)).Nodup := (hperm.map _).nodup_iff.2 h
  refine Option.ext fun b => ?_
  rw [lookup_iff_mem hother, lookup_iff_mem h, hperm.mem_iff]

end BillOfMaterials
