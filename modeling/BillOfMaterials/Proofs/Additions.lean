import BillOfMaterials.Proofs.Listing
import BillOfMaterials.Proofs.Survey
import BillOfMaterials.Proofs.Writing
import Mathlib.Data.List.Induction

/-!
# What directories and files of one name add to a tree

Files that all have one name are put into a tree without links, and the directories that they lie in
are made. Whatever passes over directories, and over files of that name, finds nothing new: paths
lead where they led, the same archives are selected, and a survey makes the same index. This holds
wherever the files are put, also among the archives and in the repository.
-/
namespace BillOfMaterials

namespace FileTree

def HasNoLinks (t : FileTree) : Prop := ∀ loc target, t.at? loc ≠ some (.link target)

variable {t u v : FileTree} {p : Path} {loc d start : Location} {names : List Bytes}
  {f name : Bytes}

/-- A file in a directory is found under its name after the path of the directory. -/
theorem locate_join_name {location : Location} {content : ByteArray}
    (hd : t.directory? p = some location) (hname : (Path.Component.name name).IsOrdinary)
    (hlen : name.length ≤ maxName) (hat : t.at? (location ++ [name]) = some (.file content))
    (hu : isUsable (p.join ⟨name⟩) = true) :
    t.locate true (p.join ⟨name⟩) = .ok (.present (location ++ [name])) := by
  have hrelative := Path.isAbsolute_of_not_mem (p := ⟨name⟩) hname.2.2.2
  have hspelling := Path.join_ne_nil (locate_ok (directory?_eq_some hd).1).1 hrelative
  obtain ⟨m, hl⟩ := leads_of_directory? hd
  refine locate_of_follow hspelling hu ?_
  rw [Path.steps_join_name p hname, start_join t hrelative,
    hl.follow_append _ (List.cons_ne_nil _ _), follow_name hname.2.1 hname.2.2.1 hlen, hat]
  rfl

/-! ## Trees without links -/

/-- What a directory holds under a name is where the name leads. -/
theorem HasNoLinks.child? (hno : t.HasNoLinks) (hname : (Path.Component.name name).IsOrdinary) :
    t.child? loc name = if maxName < name.length then none
      else (t.at? (loc ++ [name])).map (loc ++ [name], ·) := by
  obtain ⟨-, hdot, hup, -⟩ := hname
  unfold FileTree.child?
  by_cases hlen : name.length ≤ maxName
  · rw [if_neg (Nat.not_lt.2 hlen), follow_name hdot hup hlen]
    cases he : t.at? (loc ++ [name]) with
    | none => rfl
    | some e =>
      cases e with
      | directory => simp only [follow_nil, he, Option.map_some]
      | file content => simp only [if_pos, he, Option.map_some]
      | link target => exact absurd he (hno _ target)
  · have hlong := Nat.lt_of_not_le hlen
    rw [if_pos hlong, follow_long hdot hup hlong]

theorem HasNoLinks.opens (hno : t.HasNoLinks) {inside : List Location}
    (h : t.Opens start inside loc names) : loc = start ++ names := by
  induction h with
  | start => exact (List.append_nil _).symm
  | into _ he ih =>
    cases he with
    | standing _ => rw [ih, List.append_assoc]
    | linked hl _ _ => exact absurd hl (hno _ _)

theorem WellFormed.exists_opens (ht : t.WellFormed)
    (h : t.at? (start ++ names) = some .directory) :
    ∃ inside, t.Opens start inside (start ++ names) names := by
  induction names using List.reverseRecOn with
  | nil => exact ⟨[start], by rw [List.append_nil]; exact .start⟩
  | append_singleton names name ih =>
    rw [← List.append_assoc] at h ⊢
    obtain ⟨inside, ho⟩ := ih (ht.within _ _ _ h)
    exact ⟨_, ho.into (.standing h)⟩

/-- A walk comes to the files below its start, along the names that they lie under. -/
theorem WellFormed.reachesFile_iff (ht : t.WellFormed) (hno : t.HasNoLinks) :
    t.ReachesFile start names ↔
      names ≠ [] ∧ ∃ content, t.at? (start ++ names) = some (.file content) := by
  constructor
  · rintro ⟨inside, loc, above, name, rfl, ho, ⟨content, he⟩ | ⟨target, d, content, hl, -⟩⟩
    · rw [hno.opens ho, List.append_assoc] at he
      exact ⟨List.append_ne_nil_of_right_ne_nil _ (List.cons_ne_nil _ _), content, he⟩
    · exact absurd hl (hno _ _)
  · rintro ⟨hne, content, he⟩
    obtain ⟨above, name, rfl⟩ := (List.eq_nil_or_concat names).resolve_left hne
    rw [List.concat_eq_append, ← List.append_assoc] at he
    obtain ⟨inside, ho⟩ := ht.exists_opens (ht.within _ _ _ he)
    exact ⟨inside, _, above, name, List.concat_eq_append, ho, .inl ⟨content, he⟩⟩

theorem HasNoLinks.not_meetsBadLink (hno : t.HasNoLinks) : ¬t.MeetsBadLink start names := by
  rintro ⟨inside, loc, above, name, -, -, target, hl, -⟩
  exact hno _ target hl

/-- A path that ends in a name leads to an entry of that name, in the directory that the steps
before lead to. -/
theorem HasNoLinks.leads_of_locate (hno : t.HasNoLinks) {above : List Bytes} {place : Place}
    (hs : p.steps = above ++ [f]) (hf : (Path.Component.name f).IsOrdinary)
    (h : t.locate true p = .ok place) :
    ∃ m d, t.Leads maxLinks (t.start p) above m d ∧ place.location = d ++ [f] := by
  obtain ⟨-, hdot, hup, -⟩ := hf
  obtain ⟨-, -, hfollow⟩ := locate_ok h
  rw [hs] at hfollow
  obtain ⟨m, d, hl⟩ := leads_of_follow (List.cons_ne_nil _ _) hfollow
  rw [hl.follow_append _ (List.cons_ne_nil _ _)] at hfollow
  refine ⟨m, d, hl, ?_⟩
  by_cases hlen : f.length ≤ maxName
  · rw [follow_name hdot hup hlen] at hfollow
    cases he : t.at? (d ++ [f]) with
    | none =>
      rw [he] at hfollow
      cases hfollow
      rfl
    | some e =>
      rw [he] at hfollow
      cases e with
      | directory =>
        rw [follow_nil] at hfollow
        cases hfollow
        rfl
      | file content =>
        cases hfollow
        rfl
      | link target => exact absurd he (hno _ target)
  · rw [follow_long hdot hup (Nat.lt_of_not_le hlen)] at hfollow
    cases hfollow

/-! ## Additions -/

/-- From `t` to `u` directories were made and files of the name `f` were written, and nothing else
has changed. What a directory did not list before comes last in it. -/
structure Adds (f : Bytes) (t u : FileTree) : Prop where
  grows : t.Grows u
  entry : ∀ loc, u.at? loc = t.at? loc ∨
    t.at? loc = none ∧ u.at? loc = some .directory ∨
      ∃ above content, loc = above ++ [f] ∧ u.at? loc = some (.file content)
  listing : ∀ directory, ∃ added, u.children directory = t.children directory ++ added ∧
    ∀ name ∈ added, t.at? (directory ++ [name]) = none

namespace Adds

theorem refl (f : Bytes) (t : FileTree) : Adds f t t :=
  ⟨.refl t, fun _ => .inl rfl, fun _ => ⟨[], (List.append_nil _).symm, nofun⟩⟩

/-- One more directory where nothing stood, or one more file of the name in place of another one or
of nothing. -/
theorem put (h : Adds f t v) {e : FileEntry}
    (hs : ∀ old, v.at? loc = some old → e.shape = old.shape)
    (he : v.at? loc = none ∧ e = .directory ∨
      ∃ above content, loc = above ++ [f] ∧ e = .file content) :
    Adds f t (v.put loc e) where
  grows := h.grows.trans (.put hs)
  entry other := by
    by_cases ho : other = loc
    · subst ho
      by_cases hroot : other = []
      · rw [hroot]
        exact .inl rfl
      · rw [at?_put_same v e hroot]
        rcases he with ⟨hnone, rfl⟩ | ⟨above, content, ha, rfl⟩
        · exact .inr (.inl ⟨h.grows.missing hnone, rfl⟩)
        · exact .inr (.inr ⟨above, content, ha, rfl⟩)
    · rw [at?_put_other v e ho]
      exact h.entry other
  listing directory := by
    obtain ⟨added, hadded, hnew⟩ := h.listing directory
    rw [children_put, hadded, List.append_assoc]
    refine ⟨_, rfl, fun name hname => ?_⟩
    rcases List.mem_append.1 hname with hname | hname
    · exact hnew name hname
    · split at hname
      · rename_i hnone
        have hloc := nameBelow?_eq_some.1 (Option.mem_toList.1 hname)
        rw [← hloc]
        exact h.grows.missing hnone
      · cases hname

theorem makeDirectory (h : Adds f t v) (hm : v.makeDirectory p = .ok u) : Adds f t u := by
  obtain ⟨above, name, m, parent, -, -, -, hnone, rfl⟩ := makeDirectory_ok hm
  refine h.put (fun old ho => ?_) (.inl ⟨hnone, rfl⟩)
  rw [hnone] at ho
  cases ho

theorem hasNoLinks (h : Adds f t u) (hno : t.HasNoLinks) : u.HasNoLinks := by
  intro loc target hl
  rcases h.entry loc with hsame | ⟨-, hdirectory⟩ | ⟨above, content, -, hfile⟩
  · exact hno loc target (hsame ▸ hl)
  · rw [hl] at hdirectory
    cases hdirectory
  · rw [hl] at hfile
    cases hfile

theorem write (h : Adds f t v) (hno : t.HasNoLinks) {above : List Bytes}
    (hs : p.steps = above ++ [f]) (hf : (Path.Component.name f).IsOrdinary) {content : ByteArray}
    (hw : v.write p content = .ok u) : Adds f t u := by
  rcases write_ok hw with ⟨directory, missing, hp, rfl⟩ | ⟨loc, old, hp, he, rfl⟩
  · obtain ⟨m, d, -, hd⟩ := (h.hasNoLinks hno).leads_of_locate hs hf hp
    have hnone := at?_of_absent (locate_ok hp).2.2
    refine h.put (fun old ho => ?_) (.inr ⟨d, content, hd, rfl⟩)
    rw [hnone] at ho
    cases ho
  · obtain ⟨m, d, -, hd⟩ := (h.hasNoLinks hno).leads_of_locate hs hf hp
    refine h.put (fun old' ho => ?_) (.inr ⟨d, content, hd, rfl⟩)
    rw [he] at ho
    cases ho
    rfl

theorem writeWithDirectories (h : Adds f t v) (hno : t.HasNoLinks) {above : List Bytes}
    (hs : p.steps = above ++ [f]) (hf : (Path.Component.name f).IsOrdinary) (content : ByteArray) :
    Adds f t (v.writeWithDirectories p content).1 :=
  writeWithDirectories_preserves (fun _ _ _ _ hv hm => hv.makeDirectory hm)
    (fun _ _ hv hw => hv.write hno hs hf hw) h

/-- What stood there stands there still, unless it is a file of the name. -/
theorem entry_of_some (h : Adds f t u) {e : FileEntry} (he : t.at? loc = some e)
    (hf : ∀ above, loc ≠ above ++ [f]) : u.at? loc = some e := by
  rcases h.entry loc with hsame | ⟨hnone, -⟩ | ⟨above, content, ha, -⟩
  · rw [hsame, he]
  · rw [he] at hnone
    cases hnone
  · exact absurd ha (hf above)

/-- A file of another name stood there before. -/
theorem file_of_some (h : Adds f t u) {content : ByteArray}
    (he : u.at? loc = some (.file content)) (hf : ∀ above, loc ≠ above ++ [f]) :
    t.at? loc = some (.file content) := by
  rcases h.entry loc with hsame | ⟨-, hdirectory⟩ | ⟨above, other, ha, -⟩
  · rw [← hsame, he]
  · rw [he] at hdirectory
    cases hdirectory
  · exact absurd ha (hf above)

end Adds

theorem Grows.directory? (h : t.Grows u) (hd : t.directory? p = some loc) :
    u.directory? p = some loc := by
  obtain ⟨hl, hat⟩ := directory?_eq_some hd
  unfold FileTree.directory? entry?
  simp only [locate_grows hl h, h.directory hat, Option.map_some]

end FileTree

/-! ## What selection finds -/

namespace Selection

open FileTree

variable {t u : FileTree} {settings : Settings} {f : Bytes} {location : Location}

/-- The archive that a directory holds under a name, if the name is that of an archive. -/
def archiveAt? (t : FileTree) (settings : Settings) (location : Location) (name : Bytes) :
    Option String :=
  match t.child? location name with
  | some (_, .file _) => (Text.ofBytes? name).filter (isArchive settings)
  | _ => none

theorem archiveNames_eq (t : FileTree) (settings : Settings) (location : Location) :
    archiveNames settings (fileNames t location) =
      ((t.children location).filterMap (archiveAt? t settings location)).mergeSort
        fun a b => (Text.order a b).isLE := by
  unfold archiveNames fileNames
  rw [List.filterMap_filter, List.filter_filterMap]
  congr 1
  refine List.filterMap_congr fun name _ => ?_
  unfold archiveAt?
  cases t.child? location name with
  | none => rfl
  | some found =>
    obtain ⟨loc, e⟩ := found
    cases e <;> rfl

theorem archiveAt?_eq_none (hno : t.HasNoLinks) {name : Bytes}
    (hname : (Path.Component.name name).IsOrdinary)
    (h : ∀ content, t.at? (location ++ [name]) ≠ some (.file content)) :
    archiveAt? t settings location name = none := by
  unfold archiveAt?
  rw [hno.child? hname]
  split
  · rename_i loc content heq
    split at heq
    · cases heq
    · obtain ⟨e, he, hpair⟩ := Option.map_eq_some_iff.1 heq
      cases hpair
      exact absurd he (h content)
  · rfl

theorem archives_outcome {directory : Path} (h : t.directory? directory = some location) :
    (archives t directory settings).outcome =
      match archiveNames settings (fileNames t location) with
      | [] => .error (.noArchives directory settings.archivePrefix settings.archiveExtension)
      | selected => .ok selected := by
  unfold archives
  rw [h]
  simp only [Logged.outcome_bind]
  cases archiveNames settings (fileNames t location) with
  | nil => rfl
  | cons first rest => rfl

section Added

variable (h : Adds f t u) (hno : t.HasNoLinks)
  (hf : ∀ s, Text.bytes s = f → isArchive settings s = false)

include h hno hf

theorem archiveAt?_adds {name : Bytes} (hname : (Path.Component.name name).IsOrdinary) :
    archiveAt? u settings location name = archiveAt? t settings location name := by
  by_cases hsame : name = f
  · -- no file of the name is an archive
    have hnone : (Text.ofBytes? name).filter (isArchive settings) = none := by
      rw [Option.filter_eq_none_iff]
      intro s hs
      simp [hf s (hsame ▸ Text.bytes_ofBytes? hs)]
    unfold archiveAt?
    split <;> split <;> first | rfl | exact hnone | exact hnone.symm
  · have hother (above : Location) : location ++ [name] ≠ above ++ [f] := by
      intro heq
      exact hsame (List.cons.inj (List.append_inj' heq rfl).2).1
    rcases h.entry (location ++ [name]) with heq | ⟨hnone, hdirectory⟩ | ⟨above, content, ha, -⟩
    · unfold archiveAt?
      rw [hno.child? hname, (h.hasNoLinks hno).child? hname, heq]
    · rw [archiveAt?_eq_none hno hname (by simp [hnone]),
        archiveAt?_eq_none (h.hasNoLinks hno) hname (by simp [hdirectory])]
    · exact absurd ha (hother above)

/-- The same archives are selected after additions that are no archives. -/
theorem archiveNames_adds (ht : t.WellFormed) (hu : u.WellFormed) :
    archiveNames settings (fileNames u location) =
      archiveNames settings (fileNames t location) := by
  have hordinary {v : FileTree} (hv : v.WellFormed) (name : Bytes)
      (hin : name ∈ v.children location) : (Path.Component.name name).IsOrdinary := by
    obtain ⟨e, he⟩ := Option.ne_none_iff_exists'.1 (mem_children_iff.1 hin)
    exact hv.ordinary _ _ _ he
  obtain ⟨added, hadded, hnew⟩ := h.listing location
  have hold : (t.children location).filterMap (archiveAt? u settings location) =
      (t.children location).filterMap (archiveAt? t settings location) :=
    List.filterMap_congr fun name hin => archiveAt?_adds h hno hf (hordinary ht name hin)
  have hnone : added.filterMap (archiveAt? u settings location) = [] := by
    rw [List.filterMap_eq_nil_iff]
    intro name hin
    have hname := hordinary hu name (hadded ▸ List.mem_append_right _ hin)
    rw [archiveAt?_adds h hno hf hname, archiveAt?_eq_none hno hname (by simp [hnew name hin])]
  rw [archiveNames_eq, archiveNames_eq, hadded, List.filterMap_append, hold, hnone,
    List.append_nil]

end Added

end Selection

/-! ## What a survey finds -/

namespace ArtifactIndex

open FileTree

variable {t u : FileTree} {f g : Bytes} {directory : Location} {root : Path} {extension : String}
  {names : List Bytes} {index other : ArtifactIndex}

section Added

variable (h : Adds f t u) (hno : t.HasNoLinks) (ht : t.WellFormed) (hu : u.WellFormed)
  (hf : ¬Path.HasExtension f (Text.bytes extension))

include h hno ht hu hf

theorem records_adds :
    Records u directory root extension g names ↔ Records t directory root extension g names := by
  have hreached (hext : Path.HasExtension g (Text.bytes extension))
      (hnamed : names.getLast? = some g) :
      u.ReachesFile directory names ↔ t.ReachesFile directory names := by
    rw [hu.reachesFile_iff (h.hasNoLinks hno), ht.reachesFile_iff hno]
    have hother (above : Location) : directory ++ names ≠ above ++ [f] := by
      intro heq
      have hne : names ≠ [] := by
        rintro rfl
        cases hnamed
      have hlast := congrArg List.getLast? heq
      rw [List.getLast?_append_of_ne_nil _ hne, hnamed, List.getLast?_concat] at hlast
      exact hf (Option.some.inj hlast ▸ hext)
    refine and_congr_right fun _ => ?_
    constructor
    · rintro ⟨content, he⟩
      exact ⟨content, h.file_of_some he hother⟩
    · rintro ⟨content, he⟩
      exact ⟨content, h.entry_of_some he hother⟩
  constructor
  · intro hr
    exact ⟨(hreached hr.extended hr.named).1 hr.reached, hr.named, hr.extended, hr.isText⟩
  · intro hr
    exact ⟨(hreached hr.extended hr.named).2 hr.reached, hr.named, hr.extended, hr.isText⟩

/-- A survey makes an index of the same files after additions that are not to be recorded. -/
theorem survey_adds (hs : (survey t root extension).outcome = .ok index) :
    ∃ other, (survey u root extension).outcome = .ok other ∧ other.root = index.root ∧
      ∀ g : Bytes, other.files[g]? = index.files[g]? := by
  obtain ⟨directory, hdirectory, hlinks, rfl⟩ := survey_ok hs
  have hdirectory' := h.grows.directory? hdirectory
  have hlinks' (names : List Bytes) : ¬u.MeetsBadLink directory names :=
    (h.hasNoLinks hno).not_meetsBadLink
  refine ⟨_, survey_eq_collected extension hdirectory' hlinks', ?_, fun g => Option.ext fun path => ?_⟩
  · rw [root_collected, root_collected]
  · rw [files_collected_iff ht hdirectory hlinks, files_collected_iff hu hdirectory' hlinks']
    have hrecords (names : List Bytes) : Records u directory root extension g names ↔
        Records t directory root extension g names := records_adds h hno ht hu hf
    have hlast (names : List Bytes) : RecordsLast u directory root extension g names ↔
        RecordsLast t directory root extension g names := by
      constructor
      · intro hr
        exact ⟨(hrecords names).1 hr.toRecords, fun o ho => hr.greatest o ((hrecords o).2 ho)⟩
      · intro hr
        exact ⟨(hrecords names).2 hr.toRecords, fun o ho => hr.greatest o ((hrecords o).1 ho)⟩
    simp only [hlast]

end Added

/-- An index is asked for no more than the paths that it holds. -/
theorem identify?_congr (hroot : other.root = index.root)
    (h : ∀ g : Bytes, other.files[g]? = index.files[g]?) (name : String) :
    other.identify? name = index.identify? name := by
  have hlist : other.files.toList = index.files.toList :=
    (Std.TreeMap.Equiv.of_forall_constGet?_eq h).toList_eq
  unfold identify? find?
  rw [hroot, hlist, h]

end ArtifactIndex

/-- Mappings that look names up alike make the same distributions. -/
theorem Mapping.holding_congr {m m' : Mapping} (hsettings : m'.settings = m.settings)
    (h : ∀ name, m'.index.identify? name = m.index.identify? name) (archive : String)
    (files : List Path) : m'.holding archive files = m.holding archive files := by
  have hidentify (name : String) : m'.identify name = m.identify name := by
    unfold identify
    rw [hsettings, h]
  unfold holding distribution included
  simp only [hidentify, hsettings]

end BillOfMaterials
