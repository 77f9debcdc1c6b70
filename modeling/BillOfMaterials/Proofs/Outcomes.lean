import Mathlib.Data.List.Basic

/-!
# Results and errors

What can be said of a computation that may fail from its outcome: what its parts gave, and for a list
that is taken one by one, whether all of it can be taken.
-/
namespace BillOfMaterials

variable {ε α β : Type} {x : Except ε α}

theorem bind_eq_ok_iff {f : α → Except ε β} {b : β} :
    x >>= f = .ok b ↔ ∃ a, x = .ok a ∧ f a = .ok b := by
  constructor
  · intro h
    cases x with
    | error e => cases h
    | ok a => exact ⟨a, rfl, h⟩
  · rintro ⟨a, rfl, h⟩
    exact h

theorem bind_eq_error_iff {f : α → Except ε β} {e : ε} :
    x >>= f = .error e ↔ x = .error e ∨ ∃ a, x = .ok a ∧ f a = .error e := by
  constructor
  · intro h
    cases x with
    | error other =>
      cases h
      exact .inl rfl
    | ok a => exact .inr ⟨a, rfl, h⟩
  · rintro (rfl | ⟨a, rfl, h⟩)
    · rfl
    · exact h

theorem map_eq_ok_iff {f : α → β} {b : β} : x.map f = .ok b ↔ ∃ a, x = .ok a ∧ b = f a := by
  cases x with
  | error e => simp [Except.map]
  | ok a => simp [Except.map, eq_comm]

theorem map_eq_error_iff {f : α → β} {e : ε} : x.map f = .error e ↔ x = .error e := by
  cases x with
  | error other => simp [Except.map]
  | ok a => simp [Except.map]

/-- A list is taken as a whole where each of its elements can be, whatever was taken before. -/
theorem foldlM_succeeds_iff {step : β → α → Except ε β} {fits : α → Prop} {as : List α} {b : β}
    (hstep : ∀ a ∈ as, ∀ b, (∃ b', step b a = .ok b') ↔ fits a) :
    (∃ b', as.foldlM step b = .ok b') ↔ ∀ a ∈ as, fits a := by
  induction as generalizing b with
  | nil => exact ⟨fun _ => by simp, fun _ => ⟨b, rfl⟩⟩
  | cons a rest ih =>
    obtain ⟨ha, hrest⟩ := List.forall_mem_cons.1 hstep
    simp only [List.foldlM_cons, List.forall_mem_cons, bind_eq_ok_iff, ← ha b]
    constructor
    · rintro ⟨b', next, hnext, hend⟩
      exact ⟨⟨next, hnext⟩, (ih hrest).1 ⟨b', hend⟩⟩
    · rintro ⟨⟨next, hnext⟩, hfits⟩
      obtain ⟨b', hend⟩ : ∃ b', rest.foldlM step next = .ok b' := (ih hrest).2 hfits
      exact ⟨b', next, hnext, hend⟩

end BillOfMaterials
