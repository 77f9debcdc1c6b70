import BillOfMaterials.Proofs.Changes

/-!
# What writing a file leaves

A file that was written with its directories is where its path leads afterwards, and it stays there
while the tree grows. Writing it changed nothing else: what stood at another location stands there
still, content included. Nothing is established of a write that fails.
-/
namespace BillOfMaterials

/-- Where a lookup has ended, or where the missing name would lie. -/
def Place.location : Place → Location
  | .present loc => loc
  | .absent directory name => directory ++ [name]

namespace FileTree

variable {t u v : FileTree} {p : Path} {loc : Location}

/-- A lookup goes the same way in a tree that has grown; where it ended at a missing name, it finds
the file that was put there. -/
theorem Finds.grows {final : Bool} {n : Nat} {steps : List Bytes} {place : Place}
    (h : t.Finds final n loc steps place) (hg : t.Grows u)
    (hnew : ∀ directory name, place = .absent directory name →
      ∃ content, u.at? (directory ++ [name]) = some (.file content)) :
    u.Finds final n loc steps (.present place.location) := by
  induction h with
  | here => exact .here
  | stay _ ih => exact .stay (ih hnew)
  | up _ ih => exact .up (ih hnew)
  | down hd hu hl he _ ih => exact .down hd hu hl (hg.directory he) (ih hnew)
  | missing hd hu hl _ =>
    obtain ⟨content, hc⟩ := hnew _ _ rfl
    exact .file hd hu hl hc
  | file hd hu hl he =>
    obtain ⟨content, hc⟩ := hg.file he
    exact .file hd hu hl hc
  | link hd hu hl he hf => exact .link hd hu hl (hg.link he) hf
  | across hd hu hl he hr _ ih => exact .across hd hu hl (hg.link he) hr (ih hnew)

theorem locate_of_follow {final : Bool} {place : Place} (hs : p.spelling ≠ [])
    (hu : isUsable p = true) (h : t.follow final maxLinks (t.start p) p.steps = .ok place) :
    t.locate final p = .ok place := by
  unfold locate
  rw [if_neg hs, if_neg (by simp [hu]), h]

/-- What a path leads to, it leads to for good. -/
theorem locate_grows {final : Bool} (h : t.locate final p = .ok (.present loc)) (hg : t.Grows u) :
    u.locate final p = .ok (.present loc) := by
  obtain ⟨hs, hu, hf⟩ := locate_ok h
  have hfinds := (finds_of_follow hf).grows hg nofun
  rw [← hg.start_eq p] at hfinds
  exact locate_of_follow hs hu hfinds.follow_eq

/-- A file is read where its path leads. -/
theorem read_of_locate {content : ByteArray} (h : t.locate true p = .ok (.present loc))
    (hc : t.at? loc = some (.file content)) : t.read p = .ok content := by
  unfold read
  simp only [h, bind, Except.bind, hc]
  rfl

/-- Every entry of `t` stands in `u` as it is, but for the one at `loc`. -/
structure KeepsBut (t u : FileTree) (loc : Location) : Prop where
  grows : t.Grows u
  entry : ∀ other e, other ≠ loc → t.at? other = some e → u.at? other = some e

namespace KeepsBut

theorem refl (t : FileTree) (loc : Location) : t.KeepsBut t loc :=
  ⟨.refl t, fun _ _ _ he => he⟩

theorem trans (h : t.KeepsBut u loc) (h' : u.KeepsBut v loc) : t.KeepsBut v loc :=
  ⟨h.grows.trans h'.grows, fun other e ho he => h'.entry other e ho (h.entry other e ho he)⟩

theorem put_new {new : Location} {e : FileEntry} (h : t.at? new = none) (loc : Location) :
    t.KeepsBut (t.put new e) loc := by
  refine ⟨.put_new h, fun other old _ ho => ?_⟩
  have hne : other ≠ new := by
    rintro rfl
    rw [h] at ho
    cases ho
  rw [at?_put_other t e hne, ho]

theorem makeDirectory (h : t.makeDirectory p = .ok u) (loc : Location) : t.KeepsBut u loc := by
  obtain ⟨above, name, m, parent, -, -, -, hnone, rfl⟩ := makeDirectory_ok h
  exact put_new hnone loc

/-- Making directories changes no entry, also when it fails on the way. -/
theorem makeAll (t : FileTree) (paths : List Path) (loc : Location) :
    t.KeepsBut (t.makeAll paths).1 loc := by
  refine makeAll_preserves (P := fun u => t.KeepsBut u loc) ?_ (refl t loc)
  intro u u' p _ hu hm
  exact hu.trans (makeDirectory hm loc)

end KeepsBut

/-- A path leads to a file with the given content, which was put there and is all that changed. -/
structure Wrote (t u : FileTree) (p : Path) (content : ByteArray) (loc : Location) : Prop where
  keeps : t.KeepsBut u loc
  located : u.locate true p = .ok (.present loc)
  content : u.at? loc = some (.file content)

theorem wrote_of_write {content : ByteArray} (h : t.write p content = .ok u) :
    ∃ loc, t.Wrote u p content loc ∧ u = t.put loc (.file content) := by
  rcases write_ok h with ⟨directory, name, hp, rfl⟩ | ⟨loc, old, hp, he, rfl⟩
  · obtain ⟨hs, hu, hf⟩ := locate_ok hp
    have hnone := at?_of_absent hf
    have hne : directory ++ [name] ≠ [] := by simp
    have hnew : (t.put (directory ++ [name]) (.file content)).at? (directory ++ [name]) =
        some (.file content) := at?_put_same t _ hne
    have hkeeps : t.KeepsBut (t.put (directory ++ [name]) (.file content)) (directory ++ [name]) :=
      .put_new hnone _
    have hfinds := (finds_of_follow hf).grows hkeeps.grows (by
      intro directory' name' he
      cases he
      exact ⟨content, hnew⟩)
    rw [← hkeeps.grows.start_eq p] at hfinds
    exact ⟨_, ⟨hkeeps, locate_of_follow hs hu hfinds.follow_eq, hnew⟩, rfl⟩
  · have hne : loc ≠ [] := by
      rintro rfl
      rw [at?_root] at he
      cases he
    have hgrows : t.Grows (t.put loc (.file content)) := .put_file he
    refine ⟨loc, ⟨⟨hgrows, ?_⟩, locate_grows hp hgrows, at?_put_same t _ hne⟩, rfl⟩
    intro other e ho hother
    rw [at?_put_other t _ ho, hother]

theorem Wrote.after {content : ByteArray} (hk : ∀ loc, t.KeepsBut u loc)
    (h : u.Wrote v p content loc) : t.Wrote v p content loc :=
  ⟨(hk loc).trans h.keeps, h.located, h.content⟩

theorem wrote_of_writeWithDirectories {content : ByteArray}
    (h : t.writeWithDirectories p content = (u, .ok ())) : ∃ loc, t.Wrote u p content loc := by
  obtain ⟨loc, hw, -⟩ := wrote_of_write (writeWithDirectories_ok h)
  exact ⟨loc, hw.after fun loc => .makeAll t (enclosing p) loc⟩

end FileTree
end BillOfMaterials
