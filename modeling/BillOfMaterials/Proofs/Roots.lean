import BillOfMaterials.Proofs.Mirroring
import BillOfMaterials.Proofs.Origins

/-!
# The root of a repository

A repository can be named in many ways, and it can be moved. The walk through it goes by names, and the
paths of the files that it comes to are the root as it is spelled, joined with what the names spell.
Reading a module off such a path takes away the components of the root, whatever they are. So the same
repository gives the same modules under every root, and the paths of the files differ in the root alone.
-/
namespace BillOfMaterials

namespace FileTree

variable {t u : FileTree} {d d' loc : Location} {names : List Bytes} {inside : List Location}

namespace Mirrors

theorem symm (h : t.Mirrors d u d') : u.Mirrors d' t d where
  entry rest := (h.entry rest).symm
  noLink rest target := by
    rw [h.entry]
    exact h.noLink rest target
  directory := h.directory'

/-- A walk below the one place goes where a walk below the other goes, along the same names. -/
theorem opens (h : t.Mirrors d u d') (ho : t.Opens d inside loc names) :
    loc = d ++ names ∧ ∃ inside', u.Opens d' inside' (d' ++ names) names := by
  induction ho with
  | start => exact ⟨(List.append_nil d).symm, [d'], by rw [List.append_nil]; exact .start⟩
  | into _ he ih =>
    obtain ⟨rfl, inside', ho'⟩ := ih
    cases he with
    | standing hd =>
      rw [List.append_assoc, ← h.entry, ← List.append_assoc] at hd
      have hnext := ho'.into (.standing hd)
      rw [List.append_assoc] at hnext
      exact ⟨List.append_assoc .., _, hnext⟩
    | linked hl _ _ =>
      rw [List.append_assoc] at hl
      exact absurd hl (h.noLink _ _)

theorem reachesFile (h : t.Mirrors d u d') (hr : t.ReachesFile d names) :
    u.ReachesFile d' names := by
  obtain ⟨inside, loc, above, name, rfl, ho, hfile⟩ := hr
  obtain ⟨rfl, inside', ho'⟩ := h.opens ho
  rw [List.append_assoc] at hfile
  obtain ⟨content, hat⟩ | ⟨target, -, -, hl, -⟩ := hfile
  · rw [← h.entry, ← List.append_assoc] at hat
    exact ⟨inside', _, above, name, rfl, ho', .inl ⟨content, hat⟩⟩
  · exact absurd hl (h.noLink _ _)

theorem not_meetsBadLink (h : t.Mirrors d u d') : ¬t.MeetsBadLink d names := by
  rintro ⟨inside, loc, above, name, -, ho, target, hl, -⟩
  obtain ⟨rfl, -⟩ := h.opens ho
  rw [List.append_assoc] at hl
  exact h.noLink _ _ hl

end Mirrors

end FileTree

namespace ArtifactIndex

open FileTree

variable {t u : FileTree} {d d' : Location} {p q root : Path} {r s extension : String}
  {names : List Bytes} {f : Bytes} {index other : ArtifactIndex}

/-! ## Paths below a root -/

theorem pathTo_join (p q : Path) (names : List Bytes) :
    pathTo (p.join q) names = p.join (pathTo q names) := by
  induction names generalizing q with
  | nil => rfl
  | cons name names ih =>
    show pathTo ((p.join q).join ⟨name⟩) names = p.join (pathTo (q.join ⟨name⟩) names)
    rw [Path.join_assoc, ih]

/-- The path that names spell by themselves. -/
def below (names : List Bytes) : Path := pathTo ⟨[]⟩ names

theorem pathTo_eq_join (root : Path) (hne : names ≠ []) : pathTo root names = root.join (below names) := by
  obtain ⟨name, rest, rfl⟩ := List.exists_cons_of_ne_nil hne
  have hfirst : (Path.mk []).join ⟨name⟩ = ⟨name⟩ := by
    unfold Path.join
    split
    · rfl
    · exact if_pos (.inl rfl)
  show pathTo (root.join ⟨name⟩) rest = root.join (pathTo ((Path.mk []).join ⟨name⟩) rest)
  rw [hfirst, pathTo_join]

theorem isAbsolute_pathTo (root : Path) (hnames : ∀ name ∈ names, (Path.Component.name name).IsOrdinary) :
    (pathTo root names).isAbsolute = root.isAbsolute := by
  induction names generalizing root with
  | nil => rfl
  | cons name names ih =>
    obtain ⟨hname, hrest⟩ := List.forall_mem_cons.1 hnames
    have hrelative := Path.isAbsolute_of_not_mem (p := ⟨name⟩) hname.2.2.2
    exact (ih (root.join ⟨name⟩) hrest).trans (Path.isAbsolute_join hrelative)

/-- Whether the path of a file is text does not depend on the root, which is text. -/
theorem isText_pathTo (r : String) (hne : names ≠ [])
    (hnames : ∀ name ∈ names, (Path.Component.name name).IsOrdinary) :
    (pathTo (.ofString r) names).isText = (below names).isText := by
  rw [pathTo_eq_join _ hne]
  exact Path.isText_join r (isAbsolute_pathTo ⟨[]⟩ hnames)

/-- The module of a file is read off what its names spell below the root. -/
theorem coordinateOf?_pathTo_congr (hp : p.spelling ≠ []) (hq : q.spelling ≠ [])
    (hnames : ∀ name ∈ names, (Path.Component.name name).IsOrdinary) :
    coordinateOf? p (pathTo p names) = coordinateOf? q (pathTo q names) := by
  unfold coordinateOf?
  rw [below?_pathTo hp hnames, below?_pathTo hq hnames]

/-! ## Indexes of one repository -/

/-- Nothing below either root, or the file that the same names lead to below each. -/
inductive SameFile (p q : Path) : Option Path → Option Path → Prop
  | nothing : SameFile p q none none
  | file {names : List Bytes} : names ≠ [] →
      (∀ name ∈ names, (Path.Component.name name).IsOrdinary) →
      SameFile p q (some (pathTo p names)) (some (pathTo q names))

namespace SameFile

theorem symm {x y : Option Path} (h : SameFile p q x y) : SameFile q p y x := by
  cases h with
  | nothing => exact .nothing
  | file hne hnames => exact .file hne hnames

theorem isSome_eq {x y : Option Path} (h : SameFile p q x y) : x.isSome = y.isSome := by
  cases h with
  | nothing => rfl
  | file _ _ => rfl

end SameFile

/-- The indexes hold the same files, each below its own root. -/
def HoldAlike (index other : ArtifactIndex) : Prop :=
  ∀ f : Bytes, SameFile index.root other.root index.files[f]? other.files[f]?

namespace HoldAlike

theorem symm (h : HoldAlike index other) : HoldAlike other index := fun f => (h f).symm

variable (h : HoldAlike index other)

include h

theorem mem_files_iff (f : Bytes) : f ∈ other.files ↔ f ∈ index.files := by
  rw [Std.TreeMap.mem_iff_isSome_getElem?, Std.TreeMap.mem_iff_isSome_getElem?, (h f).isSome_eq]

theorem find?_of_some {name : String} {path : Path} (hfound : index.find? name = some path) :
    SameFile index.root other.root (some path) (other.find? name) := by
  obtain ⟨f, hstands, hfile⟩ := find?_eq_some hfound
  have hrecorded : (· ∈ index.files) = (· ∈ other.files) :=
    funext fun f => propext (h.mem_files_iff f).symm
  have hsame := h f
  rw [hfile] at hsame
  obtain ⟨path', hother⟩ := Option.isSome_iff_exists.1 hsame.isSome_eq.symm
  rw [hrecorded] at hstands
  rw [find?_eq_some_iff.2 ⟨f, hstands, hother⟩, ← hother]
  exact hsame

/-- What is found for a name is the same file. -/
theorem find? (name : String) :
    SameFile index.root other.root (index.find? name) (other.find? name) := by
  cases hi : index.find? name with
  | some path => exact h.find?_of_some hi
  | none =>
    cases ho : other.find? name with
    | none => exact .nothing
    | some path =>
      have hsame := h.symm.find?_of_some ho
      rw [hi] at hsame
      exact hsame.symm

/-- The same module is read off what is found. -/
theorem identify? (hi : index.root.spelling ≠ []) (ho : other.root.spelling ≠ []) (name : String) :
    index.identify? name = none ∧ other.identify? name = none ∨
      ∃ c names, names ≠ [] ∧ (∀ name ∈ names, (Path.Component.name name).IsOrdinary) ∧
        index.identify? name = some (c, pathTo index.root names) ∧
        other.identify? name = some (c, pathTo other.root names) := by
  have hfound := h.find? name
  unfold ArtifactIndex.identify?
  generalize index.find? name = path at hfound ⊢
  generalize other.find? name = path' at hfound ⊢
  cases hfound with
  | nothing => exact .inl ⟨rfl, rfl⟩
  | @file names hne hnames =>
    rw [Option.bind_some, Option.bind_some, coordinateOf?_pathTo_congr ho hi hnames]
    cases coordinateOf? index.root (pathTo index.root names) with
    | none => exact .inl ⟨rfl, rfl⟩
    | some c => exact .inr ⟨c, names, hne, hnames, rfl, rfl⟩

end HoldAlike

/-! ## Surveys of one repository -/

theorem Records.mirrored (ht : t.WellFormed) (h : t.Mirrors d u d')
    (hr : Records t d (.ofString r) extension f names) :
    Records u d' (.ofString s) extension f names where
  reached := h.reachesFile hr.reached
  named := hr.named
  extended := hr.extended
  isText := by
    have hne : names ≠ [] := by
      rintro rfl
      cases hr.named
    have hnames := ht.ordinary_of_reachesFile hr.reached
    rw [isText_pathTo s hne hnames, ← isText_pathTo r hne hnames]
    exact hr.isText

section Mirrored

variable (ht : t.WellFormed) (hu : u.WellFormed) (h : t.Mirrors d u d')

include ht hu h

theorem RecordsLast.mirrored (hr : RecordsLast t d (.ofString r) extension f names) :
    RecordsLast u d' (.ofString s) extension f names where
  toRecords := hr.toRecords.mirrored ht h
  greatest other hother := hr.greatest other (hother.mirrored hu h.symm)

variable (hr : t.directory? (.ofString r) = some d) (hs : u.directory? (.ofString s) = some d')

include hr hs

/-- The files that are to be recorded are the same, and so is the last one of each name. -/
theorem holdAlike_collected (extension : String) :
    HoldAlike (collected t d (.ofString r) extension) (collected u d' (.ofString s) extension) := by
  intro f
  have ht' (path : Path) : (collected t d (.ofString r) extension).files[f]? = some path ↔
      ∃ names, RecordsLast t d (.ofString r) extension f names ∧ path = pathTo (.ofString r) names :=
    files_collected_iff ht hr fun _ => h.not_meetsBadLink
  have hu' (path : Path) : (collected u d' (.ofString s) extension).files[f]? = some path ↔
      ∃ names, RecordsLast u d' (.ofString s) extension f names ∧ path = pathTo (.ofString s) names :=
    files_collected_iff hu hs fun _ => h.symm.not_meetsBadLink
  rw [root_collected, root_collected]
  by_cases hlast : ∃ names, RecordsLast t d (.ofString r) extension f names
  · obtain ⟨names, hlast⟩ := hlast
    rw [(ht' _).2 ⟨names, hlast, rfl⟩, (hu' _).2 ⟨names, hlast.mirrored ht hu h, rfl⟩]
    refine .file ?_ (ht.ordinary_of_reachesFile hlast.reached)
    rintro rfl
    cases hlast.named
  · have hnone : (collected t d (.ofString r) extension).files[f]? = none := by
      refine Option.eq_none_iff_forall_ne_some.2 fun path hfile => hlast ?_
      obtain ⟨names, hlast, -⟩ := (ht' path).1 hfile
      exact ⟨names, hlast⟩
    have hnone' : (collected u d' (.ofString s) extension).files[f]? = none := by
      refine Option.eq_none_iff_forall_ne_some.2 fun path hfile => hlast ?_
      obtain ⟨names, hlast, -⟩ := (hu' path).1 hfile
      exact ⟨names, hlast.mirrored hu ht h.symm⟩
    rw [hnone, hnone']
    exact .nothing

/-- The same repository gives the same modules, however its root is spelled and wherever it lies, if no
link stands in it. The surveys make indexes of one size. For each name either both know no module, or
they know the same one, and the path of the file is the one root or the other joined with one and the
same relative path. -/
theorem survey_respelled (extension : String) :
    ∃ index other, (survey t (.ofString r) extension).outcome = .ok index ∧
      (survey u (.ofString s) extension).outcome = .ok other ∧
      other.size = index.size ∧
      ∀ name, index.identify? name = none ∧ other.identify? name = none ∨
        ∃ c below, below.isAbsolute = false ∧
          index.identify? name = some (c, (Path.ofString r).join below) ∧
          other.identify? name = some (c, (Path.ofString s).join below) := by
  have hlike := holdAlike_collected ht hu h hr hs extension
  have hspelled {v : FileTree} {e : Location} {p : Path} (hd : v.directory? p = some e) :
      (collected v e p extension).root.spelling ≠ [] := by
    rw [root_collected]
    exact (FileTree.locate_ok (FileTree.directory?_eq_some hd).1).1
  refine ⟨_, _, survey_eq_collected extension hr fun _ => h.not_meetsBadLink,
    survey_eq_collected extension hs fun _ => h.symm.not_meetsBadLink,
    size_eq_of_mem hlike.mem_files_iff, fun name => ?_⟩
  obtain hnone | ⟨c, names, hne, hnames, hi, ho⟩ :=
    hlike.identify? (hspelled hr) (hspelled hs) name
  · exact .inl hnone
  · rw [root_collected, pathTo_eq_join _ hne] at hi ho
    exact .inr ⟨c, below names, isAbsolute_pathTo ⟨[]⟩ hnames, hi, ho⟩

end Mirrored

/-- A repository beside the working directory, and a link to it at the top. -/
def twoRoots : FileTree where
  entries := [
    ([Text.bytes "home"], .directory),
    ([Text.bytes "home", Text.bytes "m2"], .directory),
    ([Text.bytes "home", Text.bytes "m2", Text.bytes "org"], .directory),
    ([Text.bytes "home", Text.bytes "m2", Text.bytes "org", Text.bytes "x"], .directory),
    ([Text.bytes "home", Text.bytes "m2", Text.bytes "org", Text.bytes "x", Text.bytes "1"],
      .directory),
    ([Text.bytes "home", Text.bytes "m2", Text.bytes "org", Text.bytes "x", Text.bytes "1",
      Text.bytes "x-1.jar"], .file .empty),
    ([Text.bytes "latest"], .link (.ofString "home/m2"))]
  workingDirectory := [Text.bytes "home"]

def twoRootsPlace : Location := [Text.bytes "home", Text.bytes "m2"]

theorem twoRoots_respelled :
    twoRoots.WellFormed ∧ twoRoots.directory? (.ofString "./m2//.") = some twoRootsPlace ∧
      twoRoots.directory? (.ofString "/latest/") = some twoRootsPlace ∧
      twoRoots.Mirrors twoRootsPlace twoRoots twoRootsPlace ∧
      ∃ index other below, (survey twoRoots (.ofString "./m2//.") "jar").outcome = .ok index ∧
        (survey twoRoots (.ofString "/latest/") "jar").outcome = .ok other ∧
        index.identify? "x-1.jar" =
          some (⟨"org", "x", .fixed "1"⟩, (Path.ofString "./m2//.").join below) ∧
        other.identify? "x-1.jar" =
          some (⟨"org", "x", .fixed "1"⟩, (Path.ofString "/latest/").join below) := by
  have ht : twoRoots.WellFormed := .of_entries (by decide +kernel)
  have hr : twoRoots.directory? (.ofString "./m2//.") = some twoRootsPlace := by decide +kernel
  have hs : twoRoots.directory? (.ofString "/latest/") = some twoRootsPlace := by decide +kernel
  have hmirrors : twoRoots.Mirrors twoRootsPlace twoRoots twoRootsPlace := by
    refine ⟨fun _ => rfl, fun rest target hlink => ?_, (FileTree.directory?_eq_some hr).2⟩
    have hmem := mem_of_lookup ((if_neg (List.cons_ne_nil _ _)).symm.trans hlink)
    simp [twoRoots, twoRootsPlace] at hmem
  have hseen : twoRoots.sightings twoRootsPlace =
      [.file [Text.bytes "org", Text.bytes "x", Text.bytes "1", Text.bytes "x-1.jar"]] :=
    FileTree.walk_of_holdsOnly ⟨rfl, rfl, rfl, rfl, rfl, rfl, rfl, rfl, .empty, rfl⟩
  obtain ⟨index, other, hindex, hother, -, hsame⟩ := survey_respelled ht ht hmirrors hr hs "jar"
  have hheld : index.identify? "x-1.jar" =
      some (⟨"org", "x", .fixed "1"⟩, .ofString "./m2//./org/x/1/x-1.jar") := by
    have hcollected := survey_eq_collected "jar" hr fun _ => hmirrors.not_meetsBadLink
    rw [hindex, collected, hseen] at hcollected
    rw [Except.ok.inj hcollected]
    rfl
  obtain ⟨hnone, -⟩ | ⟨c, below, -, hi, ho⟩ := hsame "x-1.jar"
  · rw [hnone] at hheld
    cases hheld
  · have hc : c = ⟨"org", "x", .fixed "1"⟩ :=
      congrArg Prod.fst (Option.some.inj (hi.symm.trans hheld))
    subst hc
    exact ⟨ht, hr, hs, hmirrors, index, other, below, hindex, hother, hi, ho⟩

end ArtifactIndex
end BillOfMaterials
