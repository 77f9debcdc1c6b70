import BillOfMaterials.Bom.Location
import BillOfMaterials.Proofs.Changes
import BillOfMaterials.Proofs.Encoding
import BillOfMaterials.Proofs.Replacing
import BillOfMaterials.Selection
import Mathlib.Data.List.Flatten

/-!
# Where manifests lie

The path of a manifest depends on the archive through the short name alone, and it tells short names
apart as long as they hold no separator. Short names are cut out of file names, so they hold none
where file names do not. Two archives with one short name always share the path. Different paths may
still lead to one place, but only through links, or by short names that are no names of their own.
-/
namespace BillOfMaterials

/-! ## Names without separators -/

theorem DistributionName.unversioned_sublist (cs : List Char) : (unversioned cs).Sublist cs := by
  induction cs using unversioned.induct with
  | case1 c rest hc =>
    rw [unversioned, if_pos hc]
    exact List.nil_sublist _
  | case2 c rest hc ih =>
    rw [unversioned, if_neg hc]
    exact ih.cons_cons _
  | case3 c rest _ ih =>
    rw [unversioned]
    · exact ih.cons_cons c
    · assumption
  | case4 => exact List.Sublist.refl _

/-- A short name is what is left of the archive's name. -/
theorem DistributionName.shortName_sublist (namePrefix archive : List Char) :
    (shortName namePrefix archive).Sublist archive :=
  (Text.replaceAll_nil_sublist _ _).trans (unversioned_sublist archive)

theorem DistributionName.slash_not_mem_short {archive : String} (namePrefix : String)
    (h : Path.slash ∉ Text.bytes archive) :
    Path.slash ∉ Text.bytes (ofArchive archive namePrefix).short := by
  have hsub := (shortName_sublist namePrefix.toList archive.toList).flatMap String.utf8EncodeChar
  intro hmem
  rw [Text.bytes_eq] at h
  exact h (hsub.subset (Text.bytes_ofList _ ▸ hmem))

/-- No name in the tree holds a separator. -/
def FileTree.NamesArePlain (t : FileTree) : Prop :=
  ∀ entry ∈ t.entries, ∀ name ∈ entry.1, Path.slash ∉ name

instance (t : FileTree) : Decidable t.NamesArePlain := by
  unfold FileTree.NamesArePlain
  infer_instance

theorem FileTree.mem_of_nameBelow? {directory loc : Location} {name : Bytes}
    (h : nameBelow? directory loc = some name) : name ∈ loc := by
  unfold nameBelow? at h
  split at h
  · split at h
    · rename_i only hd
      cases h
      have hmem : name ∈ loc.drop directory.length := by rw [hd]; exact List.mem_singleton_self name
      exact List.mem_of_mem_drop hmem
    · cases h
  · cases h

/-- The names of archives are names in the tree. -/
theorem Selection.slash_not_mem_archive {t : FileTree} (ht : t.NamesArePlain)
    {settings : Settings} {directory : Location} {archive : String}
    (h : archive ∈ archiveNames settings (fileNames t directory)) :
    Path.slash ∉ Text.bytes archive := by
  have hmem := (List.mergeSort_perm _ _).mem_iff.1 h
  obtain ⟨name, hname, htext⟩ := List.mem_filterMap.1 (List.mem_filter.1 hmem).1
  obtain ⟨entry, hentry, hbelow⟩ := List.mem_filterMap.1 (List.mem_filter.1 hname).1
  rw [Text.bytes_ofBytes? htext]
  exact ht entry hentry name (FileTree.mem_of_nameBelow? hbelow)

/-! ## Paths of manifests -/

namespace Bom

theorem ordinary_fileName : (Path.Component.name (Text.bytes fileName)).IsOrdinary := by decide

theorem named_path {output : Path} {d : Distribution} (h : Path.slash ∉ Text.bytes d.name.short) :
    (path output d).named =
      output.named ++ (Path.ofString d.name.short).named ++ [Text.bytes fileName] := by
  have hfile : Path.slash ∉ (Path.ofString fileName).spelling := by decide
  unfold path
  rw [Path.named_join (Path.isAbsolute_of_not_mem hfile),
    Path.named_join (Path.isAbsolute_of_not_mem (p := .ofString d.name.short) h),
    Path.named_of_not_mem hfile]
  rfl

/-- The path of a manifest tells short names apart. -/
theorem path_eq_iff {output : Path} {d e : Distribution}
    (hd : Path.slash ∉ Text.bytes d.name.short) (he : Path.slash ∉ Text.bytes e.name.short) :
    path output d = path output e ↔ d.name.short = e.name.short := by
  constructor
  · intro h
    have hnamed : (Path.ofString d.name.short).named = (Path.ofString e.name.short).named := by
      have heq := congrArg Path.named h
      rw [named_path hd, named_path he] at heq
      exact List.append_cancel_left (List.append_cancel_right heq)
    rw [Path.named_of_not_mem (p := .ofString d.name.short) hd,
      Path.named_of_not_mem (p := .ofString e.name.short) he] at hnamed
    apply Text.bytes_injective
    show (Path.ofString d.name.short).spelling = (Path.ofString e.name.short).spelling
    split at hnamed <;> split at hnamed <;> simp_all
  · intro h
    unfold path
    rw [h]

open FileTree

theorem start_path (t : FileTree) {output : Path} {d : Distribution}
    (h : Path.slash ∉ Text.bytes d.name.short) : t.start (path output d) = t.start output := by
  have hfile : Path.slash ∉ (Path.ofString fileName).spelling := by decide
  unfold path start
  rw [Path.isAbsolute_join (Path.isAbsolute_of_not_mem hfile),
    Path.isAbsolute_join (Path.isAbsolute_of_not_mem (p := .ofString d.name.short) h)]

theorem steps_path {output : Path} {d : Distribution} (h : Path.slash ∉ Text.bytes d.name.short)
    (hne : Text.bytes d.name.short ≠ []) :
    ∃ r, (path output d).steps = output.named ++
      (Text.bytes d.name.short :: Text.bytes fileName :: r) ∧ (r = [] ∨ r = [[Path.dot]]) := by
  have hshort : (Path.ofString d.name.short).named = [Text.bytes d.name.short] :=
    (Path.named_of_not_mem (p := .ofString d.name.short) h).trans (if_neg hne)
  have hnamed : (path output d).named =
      output.named ++ [Text.bytes d.name.short, Text.bytes fileName] := by
    rw [named_path h, hshort, List.append_assoc]
    rfl
  unfold Path.steps
  dsimp only
  split
  · exact ⟨[[Path.dot]], by rw [← Path.named, hnamed, List.append_assoc]; rfl, .inr rfl⟩
  · exact ⟨[], by rw [← Path.named, hnamed], .inl rfl⟩

/-- In the directory `top` a distribution has a place of its own: its short name is the name of an
entry, and neither under this name nor at the manifest stands a link. -/
structure HasOwnPlace (t : FileTree) (top : Location) (d : Distribution) : Prop where
  name : (Path.Component.name (Text.bytes d.name.short)).IsOrdinary
  directory : ∀ target, t.at? (top ++ [Text.bytes d.name.short]) ≠ some (.link target)
  file : ∀ target,
    t.at? (top ++ [Text.bytes d.name.short, Text.bytes fileName]) ≠ some (.link target)

/-- The manifest of a distribution with a place of its own lies there. -/
theorem HasOwnPlace.locate_path {t : FileTree} {output : Path} {d : Distribution} {m : Nat}
    {top loc : Location} (hown : HasOwnPlace t top d)
    (htop : t.Leads maxLinks (t.start output) output.named m top)
    (h : t.locate true (path output d) = .ok (.present loc)) :
    loc = top ++ [Text.bytes d.name.short, Text.bytes fileName] := by
  obtain ⟨⟨hne, hdot, hup, hd⟩, hdirectory, hfile⟩ := hown
  obtain ⟨r, hsteps, hr⟩ := steps_path hd hne
  obtain ⟨-, -, hf⟩ := locate_ok h
  rw [start_path t hd, hsteps, htop.follow_append _ (List.cons_ne_nil _ _)] at hf
  rcases follow_cons_ok (List.cons_ne_nil _ _) hf with
    ⟨hc, -⟩ | ⟨hc, -⟩ | ⟨-, -, -, ⟨-, hf⟩ | ⟨target, hl, -⟩⟩
  · exact absurd hc hdot
  · exact absurd hc hup
  · rw [follow_name (by decide) (by decide) (by decide)] at hf
    cases he : t.at? ((top ++ [Text.bytes d.name.short]) ++ [Text.bytes fileName]) with
    | none =>
      simp only [he] at hf
      split at hf <;> cases hf
    | some e =>
      cases e with
      | directory =>
        simp only [he] at hf
        rcases hr with rfl | rfl
        · rw [follow_nil] at hf
          cases hf
          simp
        · rw [follow_dot, follow_nil] at hf
          cases hf
          simp
      | file content =>
        simp only [he] at hf
        split at hf
        · cases hf
          simp
        · cases hf
      | link target =>
        rw [List.append_assoc] at he
        exact absurd he (hfile target)
  · exact absurd hl (hdirectory target)

end Bom
end BillOfMaterials
