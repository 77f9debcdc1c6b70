import BillOfMaterials.FileTree.Change

/-!
# Trees that grow

Following a path reads of an entry only its shape: that it is a directory, a file with whatever
content, or a link with a certain target. A tree grows into another one when each of its entries
keeps its shape there. Every change of the library but a removal is growth, so what a path led to
before the change is what it leads to afterwards.
-/
namespace BillOfMaterials

/-- An entry without the content that a file has. -/
def FileEntry.shape : FileEntry → FileEntry
  | .file _ => .file .empty
  | e => e

theorem FileEntry.eq_directory_of_shape {e : FileEntry} (h : e.shape = .directory) :
    e = .directory := by
  cases e <;> simp_all [shape]

theorem FileEntry.eq_file_of_shape {e : FileEntry} {content : ByteArray}
    (h : e.shape = (FileEntry.file content).shape) : ∃ content', e = .file content' := by
  cases e <;> simp_all [shape]

theorem FileEntry.eq_link_of_shape {e : FileEntry} {target : Path} (h : e.shape = .link target) :
    e = .link target := by
  cases e <;> simp_all [shape]

namespace FileTree

@[simp] theorem at?_root (t : FileTree) : t.at? [] = some .directory := rfl

@[simp] theorem workingDirectory_put (t : FileTree) (loc : Location) (e : FileEntry) :
    (t.put loc e).workingDirectory = t.workingDirectory := rfl

/-- Every entry of `t` stands in `u`, with the same shape, and relative paths start alike. -/
structure Grows (t u : FileTree) : Prop where
  start : u.workingDirectory = t.workingDirectory
  entry : ∀ loc e, t.at? loc = some e → ∃ e', u.at? loc = some e' ∧ e'.shape = e.shape

namespace Grows

variable {t u v : FileTree} {loc : Location} {e : FileEntry}

theorem refl (t : FileTree) : t.Grows t := ⟨rfl, fun _ e h => ⟨e, h, rfl⟩⟩

theorem trans (h : t.Grows u) (h' : u.Grows v) : t.Grows v := by
  refine ⟨h'.start.trans h.start, fun loc e he => ?_⟩
  obtain ⟨e₁, he₁, hs₁⟩ := h.entry loc e he
  obtain ⟨e₂, he₂, hs₂⟩ := h'.entry loc e₁ he₁
  exact ⟨e₂, he₂, hs₂.trans hs₁⟩

theorem directory (h : t.Grows u) (hd : t.at? loc = some .directory) :
    u.at? loc = some .directory := by
  obtain ⟨e, he, hs⟩ := h.entry loc _ hd
  rw [he, FileEntry.eq_directory_of_shape hs]

theorem file (h : t.Grows u) {content : ByteArray} (hf : t.at? loc = some (.file content)) :
    ∃ content', u.at? loc = some (.file content') := by
  obtain ⟨e, he, hs⟩ := h.entry loc _ hf
  obtain ⟨content', rfl⟩ := FileEntry.eq_file_of_shape hs
  exact ⟨content', he⟩

theorem link (h : t.Grows u) {target : Path} (hl : t.at? loc = some (.link target)) :
    u.at? loc = some (.link target) := by
  obtain ⟨e, he, hs⟩ := h.entry loc _ hl
  rw [he, FileEntry.eq_link_of_shape hs]

theorem missing (h : t.Grows u) (hn : u.at? loc = none) : t.at? loc = none := by
  cases he : t.at? loc with
  | none => rfl
  | some e =>
    obtain ⟨e', he', -⟩ := h.entry loc e he
    rw [hn] at he'
    cases he'

/-- An entry put where nothing stood, or one of the same shape where something stood. -/
theorem put (h : ∀ old, t.at? loc = some old → e.shape = old.shape) : t.Grows (t.put loc e) := by
  refine ⟨rfl, fun other old ho => ?_⟩
  by_cases hc : other = loc
  · subst hc
    by_cases hr : other = []
    · subst hr
      exact ⟨_, rfl, by rw [at?_root] at ho; cases ho; rfl⟩
    · exact ⟨e, at?_put_same t e hr, h old ho⟩
  · exact ⟨old, (at?_put_other t e hc).trans ho, rfl⟩

theorem put_new (h : t.at? loc = none) : t.Grows (t.put loc e) :=
  put fun old ho => by rw [h] at ho; cases ho

theorem put_file {content content' : ByteArray} (h : t.at? loc = some (.file content)) :
    t.Grows (t.put loc (.file content')) :=
  put fun old ho => by rw [h] at ho; cases ho; rfl

end Grows

/-! ## What a removal leaves -/

theorem not_below {d loc : Location} : d.isPrefixOf loc = false ↔ ¬d <+: loc := by
  rw [← Bool.not_eq_true, List.isPrefixOf_iff_prefix]

theorem filter_putIn {p : Location × FileEntry → Bool} {loc : Location}
    (h : ∀ e, p (loc, e) = false) (e : FileEntry) (es : List (Location × FileEntry)) :
    (putIn loc e es).filter p = es.filter p := by
  induction es with
  | nil => simp [putIn, h]
  | cons head rest ih =>
    obtain ⟨l, old⟩ := head
    by_cases hl : l = loc
    · subst hl; simp [putIn, h]
    · simp only [putIn, if_neg hl, List.filter_cons, ih]

/-- What is neither at nor below the location stays. -/
theorem at?_remove {t : FileTree} {d loc : Location} (hloc : ¬d <+: loc) :
    (t.remove d).at? loc = t.at? loc := by
  unfold at? remove
  by_cases hr : loc = []
  · rw [if_pos hr, if_pos hr]
  rw [if_neg hr, if_neg hr]
  dsimp only
  induction t.entries with
  | nil => rfl
  | cons entry rest ih =>
    obtain ⟨l, e⟩ := entry
    rw [List.filter_cons]
    by_cases hl : d <+: l
    · have hne : (loc == l) = false := by
        rw [beq_eq_false_iff_ne]
        rintro rfl
        exact hloc hl
      rw [if_neg (by simpa using hl), List.lookup_cons, hne, ih]
    · rw [if_pos (by rw [not_below.2 hl]; rfl), List.lookup_cons, List.lookup_cons, ih]

/-- What is put at or below a location goes with it. -/
theorem remove_put (t : FileTree) {d loc : Location} (e : FileEntry) (h : d <+: loc) :
    (t.put loc e).remove d = t.remove d := by
  unfold put remove
  rw [filter_putIn fun _ => by simpa using h]

end FileTree
end BillOfMaterials
