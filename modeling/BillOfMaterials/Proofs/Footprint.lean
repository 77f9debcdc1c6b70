import BillOfMaterials.Proofs.Outside
import BillOfMaterials.Proofs.Walking
import BillOfMaterials.Proofs.Writing
import Mathlib.Data.List.Induction

/-!
# What writing a file touches

Writing a file with its directories changes the place that its path leads to and makes the
directories that were missing on the way. Nothing else changes, whether the write succeeds or not.
In a well-formed tree all that is put anywhere is put into a directory, so the tree stays
well-formed.
-/
namespace BillOfMaterials.FileTree

open BillOfMaterials.Path (dot named)

variable {t u v : FileTree} {p x : Path} {loc d : Location} {name : Bytes}
  {content : ByteArray}

/-! ## Trees that stay well-formed -/

/-- A well-formed tree in which relative paths start from a directory. -/
structure Rooted (t : FileTree) : Prop extends WellFormed t where
  working : t.at? t.workingDirectory = some .directory

theorem WellFormed.directory_of_prefix (ht : t.WellFormed) {above : Location} {e : FileEntry}
    (he : t.at? loc = some e) (habove : above <+: loc) (hne : above ≠ loc) :
    t.at? above = some .directory := by
  induction loc using List.reverseRecOn generalizing e with
  | nil => exact absurd (List.prefix_nil.1 habove) hne
  | append_singleton loc name ih =>
    have hdirectory := ht.within loc name e he
    rcases List.prefix_concat_iff.1 habove with rfl | hprefix
    · exact absurd rfl hne
    · by_cases heq : above = loc
      · rw [heq, hdirectory]
      · exact ih hdirectory hprefix heq

theorem Leads.directory (ht : t.WellFormed) {n m : Nat} {steps : List Bytes} {loc' : Location}
    (hl : t.Leads n loc steps m loc') (hd : t.at? loc = some .directory) :
    t.at? loc' = some .directory := by
  induction hl with
  | here => exact hd
  | stay _ ih => exact ih hd
  | up _ ih => exact ih (ht.above hd)
  | down _ _ _ he _ ih => exact ih he
  | across _ _ _ _ _ ih =>
    refine ih ?_
    split
    · exact at?_root t
    · exact hd

theorem ne_nil_of_mem_steps {step : Bytes} (h : step ∈ p.steps) :
    step ≠ [] ∧ Path.slash ∉ step := by
  have hnamed (hn : step ∈ p.named) : step ≠ [] ∧ Path.slash ∉ step := by
    obtain ⟨hpiece, hne⟩ := List.mem_filter.1 hn
    exact ⟨of_decide_eq_true hne, Path.slash_not_mem_pieces hpiece⟩
  unfold Path.steps at h
  dsimp only at h
  split at h
  · rcases List.mem_append.1 h with h | h
    · exact hnamed h
    · rw [List.mem_singleton.1 h]
      decide
  · exact hnamed h

/-- A missing name is missing in a directory, and something could stand there under it. -/
theorem Finds.absent (ht : t.WellFormed) {final : Bool} {n : Nat} {steps : List Bytes}
    (h : t.Finds final n loc steps (.absent d name)) (hd : t.at? loc = some .directory)
    (hsteps : ∀ step ∈ steps, step ≠ [] ∧ Path.slash ∉ step) :
    t.at? d = some .directory ∧ (Path.Component.name name).IsOrdinary := by
  generalize hplace : Place.absent d name = place at h
  induction h with
  | here => cases hplace
  | stay _ ih => exact ih hd (List.forall_mem_cons.1 hsteps).2 hplace
  | up _ ih => exact ih (ht.above hd) (List.forall_mem_cons.1 hsteps).2 hplace
  | down _ _ _ he _ ih => exact ih he (List.forall_mem_cons.1 hsteps).2 hplace
  | missing hdot hup _ _ =>
    cases hplace
    obtain ⟨hne, hslash⟩ := hsteps _ List.mem_cons_self
    exact ⟨hd, hne, hdot, hup, hslash⟩
  | file => cases hplace
  | link => cases hplace
  | @across _ _ _ _ target _ _ _ _ _ _ _ ih =>
    refine ih ?_ ?_ hplace
    · split
      · exact at?_root t
      · exact hd
    · intro step hstep
      rcases List.mem_append.1 hstep with hstep | hstep
      · exact ne_nil_of_mem_steps hstep
      · exact hsteps step (List.mem_cons_of_mem _ hstep)

namespace Rooted

variable (ht : t.Rooted)

include ht

theorem start (p : Path) : t.at? (t.start p) = some .directory := by
  unfold FileTree.start
  split
  · exact at?_root t
  · exact ht.working

/-- Something put into a directory, not in place of another directory. -/
theorem put (hd : t.at? d = some .directory)
    (hname : (Path.Component.name name).IsOrdinary)
    (hnot : t.at? (d ++ [name]) ≠ some .directory) (e : FileEntry) :
    (t.put (d ++ [name]) e).Rooted := by
  have hkeep {loc : Location} (hloc : t.at? loc = some .directory) :
      (t.put (d ++ [name]) e).at? loc = some .directory := by
    rw [at?_put_other t e fun heq => hnot (by rw [← heq, hloc]), hloc]
  have hparts {loc : Location} {other : Bytes} {old : FileEntry}
      (h : (t.put (d ++ [name]) e).at? (loc ++ [other]) = some old) :
      t.at? loc = some .directory ∧ (Path.Component.name other).IsOrdinary := by
    by_cases heq : loc ++ [other] = d ++ [name]
    · obtain ⟨rfl, hother⟩ := List.append_inj' heq rfl
      cases hother
      exact ⟨hd, hname⟩
    · rw [at?_put_other t e heq] at h
      exact ⟨ht.within loc other old h, ht.ordinary loc other old h⟩
  exact ⟨⟨fun _ _ _ h => hkeep (hparts h).1, fun _ _ _ h => (hparts h).2⟩, hkeep ht.working⟩

theorem makeDirectory (hm : t.makeDirectory p = .ok u) : u.Rooted := by
  obtain ⟨above, name, m, parent, hn, hl, ⟨hdot, hup, -⟩, hnone, rfl⟩ := makeDirectory_ok hm
  have hmem : name ∈ p.named := by simp [hn]
  obtain ⟨hpiece, hne⟩ := List.mem_filter.1 hmem
  have hname : (Path.Component.name name).IsOrdinary :=
    ⟨of_decide_eq_true hne, hdot, hup, Path.slash_not_mem_pieces hpiece⟩
  exact ht.put (hl.directory ht.toWellFormed (ht.start p)) hname (by simp [hnone]) _

theorem write (hw : t.write p content = .ok u) : u.Rooted := by
  rcases write_ok hw with ⟨directory, name, hp, rfl⟩ | ⟨loc, old, -, he, rfl⟩
  · have hf := (locate_ok hp).2.2
    obtain ⟨hd, hname⟩ := (finds_of_follow hf).absent ht.toWellFormed (ht.start p)
      fun step => ne_nil_of_mem_steps
    exact ht.put hd hname (by simp [at?_of_absent hf]) _
  · rcases List.eq_nil_or_concat loc with rfl | ⟨directory, name, rfl⟩
    · rw [at?_root] at he
      cases he
    · rw [List.concat_eq_append] at he ⊢
      exact ht.put (ht.within _ _ _ he) (ht.ordinary _ _ _ he) (by simp [he]) _

/-- Writing a file with its directories keeps a tree well-formed, also when it fails. -/
theorem writeWithDirectories (p : Path) (content : ByteArray) :
    (t.writeWithDirectories p content).1.Rooted :=
  writeWithDirectories_preserves (fun _ _ _ _ hu hm => hu.makeDirectory hm)
    (fun _ _ hu hw => hu.write hw) ht

end Rooted

/-! ## What is touched -/

/-- From `t` to `u` only the places that `files` lead to have changed, and directories have been
made that were missing on the way along `ways`. -/
structure Touched (t : FileTree) (files ways : List Path) (u : FileTree) : Prop where
  grows : t.Grows u
  outside : ∀ loc, (∀ p ∈ files, u.locate true p ≠ .ok (.present loc)) →
    u.at? loc = t.at? loc ∨
      t.at? loc = none ∧ u.at? loc = some .directory ∧ ∃ p ∈ ways, u.LeadsThrough p loc

namespace Touched

variable {files files' ways ways' : List Path}

theorem refl (t : FileTree) : t.Touched files ways t := ⟨.refl t, fun _ _ => .inl rfl⟩

theorem trans (h : t.Touched files ways u) (h' : u.Touched files' ways' v) :
    t.Touched (files ++ files') (ways ++ ways') v := by
  refine ⟨h.grows.trans h'.grows, fun loc hloc => ?_⟩
  have hlater (p : Path) (hp : p ∈ files') : v.locate true p ≠ .ok (.present loc) :=
    hloc p (List.mem_append_right _ hp)
  have hearlier (p : Path) (hp : p ∈ files) : u.locate true p ≠ .ok (.present loc) :=
    fun hu => hloc p (List.mem_append_left _ hp) (locate_grows hu h'.grows)
  rcases h'.outside loc hlater with hsame | ⟨hnone, hdirectory, p, hp, hl⟩
  · rw [hsame]
    rcases h.outside loc hearlier with hold | ⟨hnone, hdirectory, p, hp, hl⟩
    · exact .inl hold
    · exact .inr ⟨hnone, hdirectory, p, List.mem_append_left _ hp, hl.grows h'.grows⟩
  · exact .inr ⟨h.grows.missing hnone, hdirectory, p, List.mem_append_right _ hp, hl⟩

/-- A directory that is made for a path is one that the path leads through. -/
theorem directory (hx : Begins x p) (hm : t.makeDirectory x = .ok u) : t.Touched [] [p] u := by
  obtain ⟨rest, hrest⟩ := hx.named
  obtain ⟨a, b, hp, ha, -⟩ := List.filter_eq_append_iff.1 hrest.symm
  obtain ⟨loc, hnone, rfl, hl⟩ := made_through hx.absolute hp ha hm
  refine ⟨.put_new hnone, fun other _ => ?_⟩
  by_cases ho : other = loc
  · subst ho
    have hne : other ≠ [] := by
      rintro rfl
      cases hnone
    exact .inr ⟨hnone, at?_put_same t _ hne, p, List.mem_singleton_self p, hl⟩
  · exact .inl (at?_put_other t _ ho)

theorem file (hw : t.write p content = .ok u) : t.Touched [p] [] u := by
  obtain ⟨loc, hwrote, rfl⟩ := wrote_of_write hw
  refine ⟨hwrote.keeps.grows, fun other hother => .inl (at?_put_other t _ ?_)⟩
  rintro rfl
  exact hother p (List.mem_singleton_self p) hwrote.located

/-- Making the directories of a file touches no more than the way to it. -/
theorem directories (t : FileTree) (p : Path) :
    t.Touched [] [p] (t.makeAll (enclosing p)).1 := by
  refine makeAll_preserves (P := fun u => t.Touched [] [p] u) (fun u u' x hx hu hm => ?_) (refl t)
  have hboth := hu.trans (directory (begins_of_mem_enclosing hx) hm)
  refine ⟨hboth.grows, fun loc hloc => ?_⟩
  simpa using hboth.outside loc hloc

theorem of_writeWithDirectories (h : t.writeWithDirectories p content = (u, .ok ())) :
    t.Touched [p] [p] u :=
  (directories t p).trans (file (writeWithDirectories_ok h))

theorem of_failure {e : FileError} (h : t.writeWithDirectories p content = (u, .error e)) :
    t.Touched [] [p] u := by
  rw [writeWithDirectories_error h]
  exact directories t p

end Touched

end BillOfMaterials.FileTree
