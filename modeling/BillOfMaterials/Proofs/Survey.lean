import BillOfMaterials.ArtifactIndex.Survey
import BillOfMaterials.Proofs.Changes
import BillOfMaterials.Proofs.Walking

/-!
# What a survey records

A survey fails exactly where its walk comes upon a link that cannot be followed, and it always comes
to an end. The index that it makes is said in closed form: which file names it holds, and which of
several files with one name. The last file that the walk comes to is recorded, and that is the one
whose names are the greatest. So the index depends on what stands in the repository and not on the
order in which directories list it.
-/
namespace BillOfMaterials

theorem Logged.outcome_foldlM {ε α β : Type} (f : β → α → Logged ε β) (xs : List α) (b : β) :
    (xs.foldlM f b).outcome = xs.foldlM (fun b a => (f b a).outcome) b := by
  induction xs generalizing b with
  | nil => rfl
  | cons a rest ih => simp only [List.foldlM_cons, outcome_bind, ih]

namespace FileTree

/-- A walk from the directory `start` comes along `names` to a link that it cannot follow. -/
def MeetsBadLink (t : FileTree) (start : Location) (names : List Bytes) : Prop :=
  ∃ inside loc above name, names = above ++ [name] ∧ t.Opens start inside loc above ∧
    t.IsBadLink inside loc name

/-- A walk from the directory `start` comes along `names` to a file, or to a link to one. -/
def ReachesFile (t : FileTree) (start : Location) (names : List Bytes) : Prop :=
  ∃ inside loc above name, names = above ++ [name] ∧ t.Opens start inside loc above ∧
    ((∃ content, t.at? (loc ++ [name]) = some (.file content)) ∨
      ∃ target d content, t.at? (loc ++ [name]) = some (.link target) ∧
        t.child? loc name = some (d, .file content))

variable {t u : FileTree} {start loc : Location} {names : List Bytes} {name : Bytes} {p : Path}

theorem fault_mem_sightings_iff :
    .fault names ∈ t.sightings start ↔ t.MeetsBadLink start names := by
  rw [mem_sightings_iff]
  constructor
  · rintro ⟨inside, loc, above, name, ho, ⟨hb, hs⟩ | ⟨-, hs⟩⟩
    · cases hs
      exact ⟨inside, loc, above, name, rfl, ho, hb⟩
    · cases hs
  · rintro ⟨inside, loc, above, name, rfl, ho, hb⟩
    exact ⟨inside, loc, above, name, ho, .inl ⟨hb, rfl⟩⟩

theorem WellFormed.isLeaf_iff (ht : t.WellFormed) (hd : t.at? loc = some .directory) :
    t.IsLeaf loc name ↔ (∃ content, t.at? (loc ++ [name]) = some (.file content)) ∨
      ∃ target d content, t.at? (loc ++ [name]) = some (.link target) ∧
        t.child? loc name = some (d, .file content) := by
  refine or_congr_right ⟨?_, ?_⟩
  · rintro ⟨target, d, e, he, hc, hne⟩
    cases e with
    | directory => exact absurd rfl hne
    | file content => exact ⟨target, d, content, he, hc⟩
    | link other => exact absurd rfl (ht.not_link_of_child? hd hc)
  · rintro ⟨target, d, content, he, hc⟩
    exact ⟨target, d, _, he, hc, nofun⟩

theorem WellFormed.file_mem_sightings_iff (ht : t.WellFormed)
    (hs : t.at? start = some .directory) :
    .file names ∈ t.sightings start ↔ t.ReachesFile start names := by
  rw [mem_sightings_iff]
  constructor
  · rintro ⟨inside, loc, above, name, ho, ⟨-, he⟩ | ⟨hl, he⟩⟩
    · cases he
    · cases he
      exact ⟨inside, loc, above, name, rfl, ho, (ht.isLeaf_iff (ho.directory hs)).1 hl⟩
  · rintro ⟨inside, loc, above, name, rfl, ho, hl⟩
    exact ⟨inside, loc, above, name, ho, .inr ⟨(ht.isLeaf_iff (ho.directory hs)).2 hl, rfl⟩⟩

theorem Alike.reachesFile (h : t.Alike u) (hr : t.ReachesFile start names) :
    u.ReachesFile start names := by
  obtain ⟨inside, loc, above, name, rfl, ho, hl⟩ := hr
  refine ⟨inside, loc, above, name, rfl, h.opens ho, ?_⟩
  rwa [h.entry, h.child?]

theorem WellFormed.ordinary_of_reachesFile (ht : t.WellFormed) (hr : t.ReachesFile start names) :
    ∀ name ∈ names, (Path.Component.name name).IsOrdinary := by
  obtain ⟨inside, loc, above, name, rfl, ho, hl⟩ := hr
  intro other hother
  rcases List.mem_append.1 hother with hother | hother
  · exact ho.ordinary ht other hother
  · rw [List.mem_singleton.1 hother]
    rcases hl with ⟨content, he⟩ | ⟨target, d, content, he, -⟩
    · exact ht.ordinary _ _ _ he
    · exact ht.ordinary _ _ _ he

end FileTree

namespace ArtifactIndex

variable {t u : FileTree} {root : Path} {extension : String} {index : ArtifactIndex}
  {directory : Location} {names : List Bytes} {f : Bytes}

/-! ## How a survey ends -/

/-- The index with the file that `names` lead to, if that is to be recorded. -/
def entered (extension : String) (index : ArtifactIndex) (names : List Bytes) : ArtifactIndex :=
  if (pathTo index.root names).isText ∧
      (pathTo index.root names).extension? = some (Text.bytes extension) then
    index.record (pathTo index.root names)
  else index

theorem take_file (extension : String) (index : ArtifactIndex) (names : List Bytes) :
    (take extension index (.file names)).outcome = .ok (entered extension index names) := by
  unfold take entered
  dsimp only
  by_cases htext : (pathTo index.root names).isText = true
  · by_cases hext : (pathTo index.root names).extension? = some (Text.bytes extension)
    · rw [if_neg (by simp [htext]), if_pos hext, if_pos ⟨htext, hext⟩]
      rfl
    · rw [if_neg (by simp [htext]), if_neg hext, if_neg fun h => hext h.2]
      rfl
  · rw [if_pos (by simpa using htext), if_neg fun h => htext h.1]
    rfl

/-- What is seen is taken in up to the first fault, and all of it if there is none. -/
theorem foldlM_take (extension : String) (ss : List FileTree.Sighting) (index : ArtifactIndex) :
    (∃ names, .fault names ∈ ss) ∧
        (ss.foldlM (take extension) index).outcome = .error .brokenRepository ∨
      (∀ names, .fault names ∉ ss) ∧ (ss.foldlM (take extension) index).outcome =
        .ok ((ss.map (·.names)).foldl (entered extension) index) := by
  rw [Logged.outcome_foldlM]
  induction ss generalizing index with
  | nil => exact .inr ⟨nofun, rfl⟩
  | cons s rest ih =>
    cases s with
    | fault names => exact .inl ⟨⟨names, List.mem_cons_self⟩, rfl⟩
    | file names =>
      rw [List.foldlM_cons, take_file]
      rcases ih (entered extension index names) with ⟨⟨other, hin⟩, hout⟩ | ⟨hnone, hout⟩
      · exact .inl ⟨⟨other, List.mem_cons_of_mem _ hin⟩, hout⟩
      · refine .inr ⟨fun other hin => ?_, hout⟩
        rcases List.mem_cons.1 hin with he | hin
        · cases he
        · exact hnone other hin

/-- The index of all that a walk sees in the repository `root`, which lies in `directory`. -/
def collected (t : FileTree) (directory : Location) (root : Path) (extension : String) :
    ArtifactIndex :=
  ((t.sightings directory).map (·.names)).foldl (entered extension) (empty root)

theorem survey_cases (extension : String) (h : t.directory? root = some directory) :
    (∃ names, t.MeetsBadLink directory names) ∧
        (survey t root extension).outcome = .error .brokenRepository ∨
      (∀ names, ¬t.MeetsBadLink directory names) ∧
        (survey t root extension).outcome = .ok (collected t directory root extension) := by
  have hsurvey : (survey t root extension).outcome =
      ((t.sightings directory).foldlM (take extension) (empty root)).outcome := by
    unfold survey
    rw [h]
    simp only [Logged.outcome_bind]
    cases ((t.sightings directory).foldlM (take extension) (empty root)).outcome with
    | error failure => rfl
    | ok index => rfl
  rw [hsurvey]
  simp only [← FileTree.fault_mem_sightings_iff]
  exact foldlM_take extension (t.sightings directory) (empty root)

theorem survey_eq_collected (extension : String) (h : t.directory? root = some directory)
    (hlinks : ∀ names, ¬t.MeetsBadLink directory names) :
    (survey t root extension).outcome = .ok (collected t directory root extension) := by
  obtain ⟨⟨names, hbad⟩, -⟩ | ⟨-, hout⟩ := survey_cases extension h
  · exact absurd hbad (hlinks names)
  · exact hout

/-- A survey of a directory fails where its walk comes upon a link that leads nowhere or to a
directory that the walk is inside of, and makes an index where it comes upon none. It ends, since no
walk goes through more names than the tree has places for. -/
theorem survey_fails_iff (h : t.directory? root = some directory) :
    ((survey t root extension).outcome = .error .brokenRepository ↔
        ∃ names, t.MeetsBadLink directory names) ∧
      ((∃ index, (survey t root extension).outcome = .ok index) ↔
        ¬∃ names, t.MeetsBadLink directory names) ∧
      ∀ inside loc names, t.Opens directory inside loc names →
        names.length < t.directories.length * (t.height + 1) := by
  have hdirectory := (FileTree.directory?_eq_some h).2
  refine ⟨?_, ?_, fun inside loc names ho => ho.length_lt hdirectory⟩
  · rcases survey_cases extension h with ⟨hbad, hout⟩ | ⟨hnone, hout⟩
    · exact ⟨fun _ => hbad, fun _ => hout⟩
    · rw [hout]
      exact ⟨nofun, fun ⟨names, hmeets⟩ => absurd hmeets (hnone names)⟩
  · rcases survey_cases extension h with ⟨hbad, hout⟩ | ⟨hnone, hout⟩
    · rw [hout]
      exact ⟨nofun, fun hno => absurd hbad hno⟩
    · exact ⟨fun _ ⟨names, hmeets⟩ => hnone names hmeets, fun _ => ⟨_, hout⟩⟩

/-- A repository in which one link leads to a directory beside it, and another one in there back to
the top. -/
def looping : FileTree where
  entries := [
    ([Text.bytes "m2"], .directory),
    ([Text.bytes "m2", Text.bytes "com"], .directory),
    ([Text.bytes "m2", Text.bytes "com", Text.bytes "top"], .link (.ofString "../../m2")),
    ([Text.bytes "m2", Text.bytes "org"], .link (.ofString "com"))]

theorem looping_fails :
    looping.directory? (.ofString "m2") = some [Text.bytes "m2"] ∧
      (survey looping (.ofString "m2") "jar").outcome = .error .brokenRepository := by
  have hdirectory : looping.directory? (.ofString "m2") = some [Text.bytes "m2"] := by
    decide +kernel
  have hopens : looping.Opens [Text.bytes "m2"]
      [[Text.bytes "m2", Text.bytes "com"], [Text.bytes "m2"]]
      [Text.bytes "m2", Text.bytes "com"] [Text.bytes "org"] :=
    .into .start (.linked (t := looping) rfl rfl (by decide +kernel))
  have hbad : looping.MeetsBadLink [Text.bytes "m2"] [Text.bytes "org", Text.bytes "top"] :=
    ⟨_, _, _, _, rfl, hopens, .ofString "../../m2", rfl,
      .inr ⟨[Text.bytes "m2"], by decide +kernel, rfl⟩⟩
  exact ⟨hdirectory, (survey_fails_iff hdirectory).1.2 ⟨_, hbad⟩⟩

/-! ## What an index holds -/

/-- A survey of the repository `root`, which lies in `directory`, comes along `names` to a file that
is to be recorded under the file name `f`. -/
structure Records (t : FileTree) (directory : Location) (root : Path) (extension : String)
    (f : Bytes) (names : List Bytes) : Prop where
  reached : t.ReachesFile directory names
  named : names.getLast? = some f
  extended : Path.HasExtension f (Text.bytes extension)
  isText : (pathTo root names).isText = true

/-- Of the files that are to be recorded under one name, the one with the greatest names. -/
structure RecordsLast (t : FileTree) (directory : Location) (root : Path) (extension : String)
    (f : Bytes) (names : List Bytes) : Prop extends
    Records t directory root extension f names where
  greatest : ∀ other, Records t directory root extension f other → (compare other names).isLE

theorem components_pathTo (hroot : root.spelling ≠ [])
    (hnames : ∀ name ∈ names, (Path.Component.name name).IsOrdinary) :
    (pathTo root names).components = root.components ++ names.map .name := by
  induction names generalizing root with
  | nil => exact (List.append_nil _).symm
  | cons name names ih =>
    obtain ⟨hname, hrest⟩ := List.forall_mem_cons.1 hnames
    have hslash := Path.isAbsolute_of_not_mem (p := ⟨name⟩) hname.2.2.2
    show (pathTo (root.join ⟨name⟩) names).components = _
    rw [ih (Path.join_ne_nil hroot hslash) hrest, Path.components_join_name hname,
      List.append_assoc]
    rfl

theorem fileName?_pathTo (hroot : root.spelling ≠ []) (hne : names ≠ [])
    (hnames : ∀ name ∈ names, (Path.Component.name name).IsOrdinary) :
    (pathTo root names).fileName? = names.getLast? := by
  obtain ⟨above, f, rfl⟩ := (List.eq_nil_or_concat names).resolve_left hne
  unfold Path.fileName?
  rw [components_pathTo hroot hnames]
  simp

/-- Whether the file that `names` lead to is to be recorded under the name `f`. -/
def isCandidate (root : Path) (extension : String) (f : Bytes) (names : List Bytes) : Bool :=
  (pathTo root names).isText && decide ((pathTo root names).fileName? = some f) &&
    decide (Path.extensionOf? f = some (Text.bytes extension))

theorem root_entered (extension : String) (index : ArtifactIndex) (names : List Bytes) :
    (entered extension index names).root = index.root := by
  unfold entered record
  split
  · split <;> rfl
  · rfl

/-- A recorded path is held under its file name, and every other name holds what it held. -/
theorem files_record (index : ArtifactIndex) (path : Path) (f : Bytes) :
    (index.record path).files[f]? =
      if path.fileName? = some f then some path else index.files[f]? := by
  unfold record
  cases path.fileName? with
  | none => rw [if_neg nofun]
  | some name =>
    by_cases hname : name = f
    · rw [if_pos (congrArg some hname), hname]
      exact Std.TreeMap.getElem?_insert_self
    · have hcompare : compare name f ≠ .eq := fun he => hname (Std.LawfulEqOrd.eq_of_compare he)
      rw [if_neg fun he => hname (Option.some.inj he)]
      exact Std.TreeMap.getElem?_insert.trans (if_neg hcompare)

theorem files_entered (extension : String) (index : ArtifactIndex) (names : List Bytes)
    (f : Bytes) :
    (entered extension index names).files[f]? =
      if isCandidate index.root extension f names then some (pathTo index.root names)
      else index.files[f]? := by
  unfold entered isCandidate Path.extension?
  by_cases hname : (pathTo index.root names).fileName? = some f
  · -- the name is `f`, so it is recorded exactly if it is a candidate
    rw [hname]
    split
    · rename_i hrecorded
      rw [files_record, if_pos hname, if_pos (by simpa using hrecorded)]
    · rename_i hrecorded
      rw [if_neg (by simpa using hrecorded)]
  · rw [if_neg (c := _ = true) (by simp [hname])]
    split
    · rw [files_record, if_neg hname]
    · rfl

/-- Each file name ends up with the last candidate for it. -/
theorem files_foldl (extension : String) (paths : List (List Bytes)) (index : ArtifactIndex)
    (f : Bytes) :
    (paths.foldl (entered extension) index).files[f]? =
      ((paths.filter (isCandidate index.root extension f)).getLast?.map
        (pathTo index.root)).or index.files[f]? := by
  induction paths generalizing index with
  | nil => rfl
  | cons names rest ih =>
    rw [List.foldl_cons, ih, root_entered, files_entered, List.filter_cons]
    by_cases h : isCandidate index.root extension f names = true
    · rw [if_pos h, if_pos h, List.getLast?_cons]
      cases (rest.filter (isCandidate index.root extension f)).getLast? <;> rfl
    · rw [if_neg h, if_neg h]

theorem root_collected (t : FileTree) (directory : Location) (root : Path) (extension : String) :
    (collected t directory root extension).root = root := by
  have hfold (paths : List (List Bytes)) (index : ArtifactIndex) :
      (paths.foldl (entered extension) index).root = index.root := by
    induction paths generalizing index with
    | nil => rfl
    | cons names rest ih => rw [List.foldl_cons, ih, root_entered]
  exact hfold _ (empty root)

/-- The sightings that the survey records under one name, in its order. -/
def candidates (t : FileTree) (directory : Location) (root : Path) (extension : String)
    (f : Bytes) : List FileTree.Sighting :=
  (t.sightings directory).filter fun s => isCandidate root extension f s.names

theorem files_collected :
    (collected t directory root extension).files[f]? =
      (candidates t directory root extension f).getLast?.map fun s => pathTo root s.names := by
  have hempty : (empty root).files[f]? = none := Std.TreeMap.getElem?_emptyc
  unfold collected candidates
  rw [files_foldl, hempty, Option.or_none, List.filter_map, List.getLast?_map, Option.map_map]
  rfl

section Closed

variable (ht : t.WellFormed) (hdirectory : t.directory? root = some directory)

include ht hdirectory

theorem isCandidate_iff (hr : t.ReachesFile directory names) :
    isCandidate root extension f names = true ↔ Records t directory root extension f names := by
  have hroot : root.spelling ≠ [] :=
    (FileTree.locate_ok (FileTree.directory?_eq_some hdirectory).1).1
  have hne : names ≠ [] := by
    obtain ⟨inside, loc, above, name, rfl, -⟩ := hr
    exact List.append_ne_nil_of_right_ne_nil _ (List.cons_ne_nil _ _)
  unfold isCandidate
  rw [fileName?_pathTo hroot hne (ht.ordinary_of_reachesFile hr), Bool.and_eq_true,
    Bool.and_eq_true, decide_eq_true_iff, decide_eq_true_iff, Path.extensionOf?_eq_some_iff]
  exact ⟨fun h => ⟨hr, h.1.2, h.2, h.1.1⟩, fun h => ⟨⟨h.isText, h.named⟩, h.extended⟩⟩

variable (hlinks : ∀ names, ¬t.MeetsBadLink directory names)

include hlinks

theorem mem_candidates_iff (extension : String) (f : Bytes) (names : List Bytes) :
    (∃ s ∈ candidates t directory root extension f, s.names = names) ↔
      Records t directory root extension f names := by
  have hstart := (FileTree.directory?_eq_some hdirectory).2
  constructor
  · rintro ⟨s, hs, rfl⟩
    obtain ⟨hs, hcandidate⟩ := List.mem_filter.1 hs
    cases s with
    | fault names => exact absurd (FileTree.fault_mem_sightings_iff.1 hs) (hlinks names)
    | file names =>
      have hr := (ht.file_mem_sightings_iff hstart).1 hs
      exact (isCandidate_iff ht hdirectory hr).1 hcandidate
  · intro h
    have hs := (ht.file_mem_sightings_iff hstart).2 h.reached
    have hcandidate := (isCandidate_iff ht hdirectory h.reached).2 h
    exact ⟨_, List.mem_filter.2 ⟨hs, hcandidate⟩, rfl⟩

/-- The survey comes to the greatest candidate last. -/
theorem recordsLast_iff :
    RecordsLast t directory root extension f names ↔
      ∃ last, (candidates t directory root extension f).getLast? = some last ∧
        last.names = names := by
  have hends : FileTree.EndsGreatest (candidates t directory root extension f) :=
    FileTree.endsGreatest_walk _ _ _ _
  have hmem := mem_candidates_iff ht hdirectory hlinks extension f
  constructor
  · -- the last candidate and the greatest one are each at least the other
    intro h
    obtain ⟨s, hs, rfl⟩ := (hmem names).2 h.toRecords
    obtain ⟨last, hlast⟩ := Option.isSome_iff_exists.1
      (List.getLast?_isSome.2 (List.ne_nil_of_mem hs))
    have hle := hends last hlast s hs
    have hge := h.greatest _ ((hmem last.names).1 ⟨last, List.mem_of_getLast? hlast, rfl⟩)
    exact ⟨last, hlast, Std.LawfulEqOrd.eq_of_compare (Std.OrientedCmp.isLE_antisymm hge hle)⟩
  · rintro ⟨last, hlast, rfl⟩
    refine ⟨(hmem last.names).1 ⟨last, List.mem_of_getLast? hlast, rfl⟩, fun other hother => ?_⟩
    obtain ⟨s, hs, rfl⟩ := (hmem other).2 hother
    exact hends last hlast s hs

/-- The index holds the greatest candidate of each name. -/
theorem files_collected_iff {path : Path} :
    (collected t directory root extension).files[f]? = some path ↔
      ∃ names, RecordsLast t directory root extension f names ∧ path = pathTo root names := by
  rw [files_collected, Option.map_eq_some_iff]
  constructor
  · rintro ⟨last, hlast, rfl⟩
    exact ⟨_, (recordsLast_iff ht hdirectory hlinks).2 ⟨last, hlast, rfl⟩, rfl⟩
  · rintro ⟨names, h, rfl⟩
    obtain ⟨last, hlast, rfl⟩ := (recordsLast_iff ht hdirectory hlinks).1 h
    exact ⟨last, hlast, rfl⟩

theorem mem_collected_iff (extension : String) (f : Bytes) :
    f ∈ (collected t directory root extension).files ↔
      ∃ names, Records t directory root extension f names := by
  rw [Std.TreeMap.mem_iff_isSome_getElem?, files_collected, Option.isSome_map,
    List.getLast?_isSome]
  constructor
  · intro hne
    obtain ⟨s, hs⟩ := List.exists_mem_of_ne_nil _ hne
    exact ⟨s.names, (mem_candidates_iff ht hdirectory hlinks extension f _).1 ⟨s, hs, rfl⟩⟩
  · rintro ⟨names, h⟩
    obtain ⟨s, hs, -⟩ := (mem_candidates_iff ht hdirectory hlinks extension f names).2 h
    exact List.ne_nil_of_mem hs

end Closed

theorem survey_ok (h : (survey t root extension).outcome = .ok index) :
    ∃ directory, t.directory? root = some directory ∧
      (∀ names, ¬t.MeetsBadLink directory names) ∧
        index = collected t directory root extension := by
  cases hdirectory : t.directory? root with
  | none =>
    unfold survey at h
    rw [hdirectory] at h
    cases h
  | some directory =>
    rcases survey_cases extension hdirectory with ⟨-, hout⟩ | ⟨hlinks, hout⟩
    · rw [hout] at h
      cases h
    · rw [hout] at h
      cases h
      exact ⟨directory, rfl, hlinks, rfl⟩

theorem Records.alike (hu : t.Alike u) (h : Records t directory root extension f names) :
    Records u directory root extension f names where
  reached := hu.reachesFile h.reached
  named := h.named
  extended := h.extended
  isText := h.isText

theorem RecordsLast.alike (hu : t.Alike u) (h : RecordsLast t directory root extension f names) :
    RecordsLast u directory root extension f names where
  toRecords := h.toRecords.alike hu
  greatest other hother := h.greatest other (hother.alike hu.symm)

theorem size_eq_length {held : List Bytes} (hnodup : held.Nodup)
    (h : ∀ f, f ∈ held ↔ f ∈ index.files) : index.size = held.length := by
  have hmem (f : Bytes) : f ∈ index.files.keys ↔ f ∈ held := by
    rw [Std.TreeMap.mem_keys, h f]
  have hperm := (List.perm_ext_iff_of_nodup Std.TreeMap.nodup_keys hnodup).2 hmem
  have hlength := hperm.length_eq
  rwa [Std.TreeMap.length_keys] at hlength

theorem size_eq_of_mem {other : ArtifactIndex}
    (h : ∀ f : Bytes, f ∈ other.files ↔ f ∈ index.files) : other.size = index.size := by
  have hkeys (f : Bytes) : f ∈ index.files.keys ↔ f ∈ other.files := by
    rw [Std.TreeMap.mem_keys, h f]
  rw [size_eq_length Std.TreeMap.nodup_keys hkeys, Std.TreeMap.length_keys]
  rfl

theorem size_eq_of_files {other : ArtifactIndex}
    (h : ∀ f : Bytes, other.files[f]? = index.files[f]?) : other.size = index.size :=
  size_eq_of_mem fun f => by
    rw [Std.TreeMap.mem_iff_isSome_getElem?, h f, Std.TreeMap.mem_iff_isSome_getElem?]

/-- A survey does not depend on the order in which directories list their children. -/
theorem survey_alike (ht : t.WellFormed) (hu : t.Alike u)
    (h : (survey t root extension).outcome = .ok index) :
    ∃ other, (survey u root extension).outcome = .ok other ∧
      ∀ f : Bytes, other.files[f]? = index.files[f]? := by
  obtain ⟨directory, hdirectory, hlinks, rfl⟩ := survey_ok h
  have hdirectoryu : u.directory? root = some directory := (hu.directory? root).trans hdirectory
  have hlinksu (names : List Bytes) : ¬u.MeetsBadLink directory names := by
    rw [← FileTree.fault_mem_sightings_iff]
    intro hin
    exact hlinks names (FileTree.fault_mem_sightings_iff.1 (hu.symm.sightings hin))
  refine ⟨_, survey_eq_collected extension hdirectoryu hlinksu,
    fun f => Option.ext fun path => ?_⟩
  rw [files_collected_iff ht hdirectory hlinks,
    files_collected_iff (hu.wellFormed ht) hdirectoryu hlinksu]
  constructor
  · rintro ⟨names, hlast, hpath⟩
    exact ⟨names, hlast.alike hu.symm, hpath⟩
  · rintro ⟨names, hlast, hpath⟩
    exact ⟨names, hlast.alike hu, hpath⟩

/-- The index that a survey makes, in closed form. It holds the names of the files that are to be
recorded, each with the path of the greatest one, and as many entries as there are such names. The
order in which directories list their children makes no difference. -/
theorem survey_index (ht : t.WellFormed) (h : (survey t root extension).outcome = .ok index) :
    ∃ directory, t.directory? root = some directory ∧
      (∀ f, f ∈ index.files ↔ ∃ names, Records t directory root extension f names) ∧
      (∀ f path, index.files[f]? = some path ↔
        ∃ names, RecordsLast t directory root extension f names ∧ path = pathTo root names ∧
          path.components = root.components ++ names.map .name) ∧
      (∃ held : List Bytes, held.Nodup ∧ index.size = held.length ∧
        ∀ f, f ∈ held ↔ ∃ names, Records t directory root extension f names) ∧
      ∀ u, t.Alike u → ∃ other, (survey u root extension).outcome = .ok other ∧
        other.size = index.size ∧ ∀ f : Bytes, other.files[f]? = index.files[f]? := by
  have halike (u : FileTree) (hu : t.Alike u) := survey_alike ht hu h
  obtain ⟨directory, hdirectory, hlinks, rfl⟩ := survey_ok h
  have hmem := mem_collected_iff ht hdirectory hlinks extension
  refine ⟨directory, hdirectory, hmem, fun f path => ?_, ?_, fun u hu => ?_⟩
  · have hroot : root.spelling ≠ [] :=
      (FileTree.locate_ok (FileTree.directory?_eq_some hdirectory).1).1
    rw [files_collected_iff ht hdirectory hlinks]
    constructor
    · rintro ⟨names, hlast, rfl⟩
      exact ⟨names, hlast, rfl,
        components_pathTo hroot (ht.ordinary_of_reachesFile hlast.reached)⟩
    · rintro ⟨names, hlast, hpath, -⟩
      exact ⟨names, hlast, hpath⟩
  · refine ⟨_, Std.TreeMap.nodup_keys, Std.TreeMap.length_keys.symm, fun f => ?_⟩
    rw [Std.TreeMap.mem_keys, hmem f]
  · obtain ⟨other, hout, hfiles⟩ := halike u hu
    exact ⟨other, hout, size_eq_of_files hfiles, hfiles⟩

/-- Two files of one name, one of them behind a link. -/
def shelved : FileTree where
  entries := [
    ([Text.bytes "m2"], .directory),
    ([Text.bytes "m2", Text.bytes "b"], .link (.ofString "../store")),
    ([Text.bytes "m2", Text.bytes "a"], .directory),
    ([Text.bytes "m2", Text.bytes "a", Text.bytes "x.jar"], .file .empty),
    ([Text.bytes "store"], .directory),
    ([Text.bytes "store", Text.bytes "x.jar"], .file .empty)]

theorem shelved_sightings :
    shelved.sightings [Text.bytes "m2"] =
      [.file [Text.bytes "a", Text.bytes "x.jar"], .file [Text.bytes "b", Text.bytes "x.jar"]] := by
  have hchildren : shelved.sortedChildren [Text.bytes "m2"] = [Text.bytes "a", Text.bytes "b"] := by
    rw [FileTree.sortedChildren, mergeSort_eq_insertionSort]
    decide +kernel
  have hlinked : shelved.child? [Text.bytes "m2"] (Text.bytes "b") =
      some ([Text.bytes "store"], .directory) := rfl
  have hfirst (inside : List Location) : shelved.walk inside [Text.bytes "m2", Text.bytes "a"]
      [Text.bytes "a"] = [.file [Text.bytes "a", Text.bytes "x.jar"]] :=
    FileTree.walk_of_holdsOnly ⟨rfl, rfl, .empty, rfl⟩
  have hsecond (inside : List Location) : shelved.walk inside [Text.bytes "store"]
      [Text.bytes "b"] = [.file [Text.bytes "b", Text.bytes "x.jar"]] :=
    FileTree.walk_of_holdsOnly ⟨rfl, rfl, .empty, rfl⟩
  rw [FileTree.sightings, FileTree.walk_eq, hchildren, List.flatMap_cons, List.flatMap_singleton,
    FileTree.seen_of_enters (.standing rfl),
    FileTree.seen_of_enters (.linked rfl hlinked (by decide))]
  exact congrArg₂ List.append (hfirst _) (hsecond _)

theorem shelved_index :
    shelved.WellFormed ∧ ∃ index directory names,
      (survey shelved (.ofString "m2") "jar").outcome = .ok index ∧
        RecordsLast shelved directory (.ofString "m2") "jar" (Text.bytes "x.jar") names ∧
          pathTo (.ofString "m2") names = .ofString "m2/b/x.jar" := by
  have ht : shelved.WellFormed := .of_entries (by decide +kernel)
  have hlinks (names : List Bytes) : ¬shelved.MeetsBadLink [Text.bytes "m2"] names := by
    rw [← FileTree.fault_mem_sightings_iff, shelved_sightings]
    simp
  have hindex : (survey shelved (.ofString "m2") "jar").outcome =
      .ok (collected shelved [Text.bytes "m2"] (.ofString "m2") "jar") :=
    survey_eq_collected "jar" rfl hlinks
  have hfiles : (collected shelved [Text.bytes "m2"] (.ofString "m2") "jar").files[
      Text.bytes "x.jar"]? = some (.ofString "m2/b/x.jar") := by
    rw [collected, shelved_sightings]
    rfl
  obtain ⟨directory, -, -, hclosed, -⟩ := survey_index ht hindex
  obtain ⟨names, hlast, hpath, -⟩ := (hclosed _ _).1 hfiles
  exact ⟨ht, _, directory, names, hindex, hlast, hpath.symm⟩

end ArtifactIndex
end BillOfMaterials
