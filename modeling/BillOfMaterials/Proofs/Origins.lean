import BillOfMaterials.Proofs.Layout
import BillOfMaterials.Proofs.Report
import BillOfMaterials.Proofs.Survey

/-!
# Where coordinates come from

Every coordinate that a run reports is the answer of a naming rule for the binary, or it is read off
the place of one file in the local repository. Which file that is depends on the file name of the
binary alone, or on its last four characters where the repository holds no file of that name. The
parts of such a coordinate are names of directories, with nothing replaced in them.
-/
namespace BillOfMaterials

namespace ArtifactIndex

variable {index : ArtifactIndex} {root path : Path} {names : List Bytes} {c : Coordinate}

/-- `f` is the file name to look under for a binary named `jar`: that name itself, or, if it is not
among the recorded names, the least of those that begin with its last four characters. -/
inductive StandsFor (recorded : Bytes → Prop) (jar : String) : Bytes → Prop
  | same : recorded (Text.bytes jar) → StandsFor recorded jar (Text.bytes jar)
  | least {front tail : String} {f : Bytes} :
      ¬recorded (Text.bytes jar) → jar = front ++ tail → tail.length = 4 → recorded f →
      Text.bytes tail <+: f →
      (∀ other, recorded other → Text.bytes tail <+: other → (compare f other).isLE) →
      StandsFor recorded jar f

theorem StandsFor.recorded {recorded : Bytes → Prop} {jar : String} {f : Bytes}
    (h : StandsFor recorded jar f) : recorded f := by
  cases h with
  | same hf => exact hf
  | least _ _ _ hf _ _ => exact hf

theorem lastFour?_eq_some {name tail : String} (h : lastFour? name = some tail) :
    (∃ front, name = front ++ tail) ∧ tail.length = 4 := by
  unfold lastFour? at h
  dsimp only at h
  split at h
  · rename_i hlength
    cases h
    refine ⟨⟨String.ofList (name.toList.take (name.toList.length - 4)), ?_⟩, ?_⟩
    · rw [← String.ofList_append, List.take_append_drop, String.ofList_toList]
    · rw [String.length_ofList, List.length_drop]
      omega
  · cases h

theorem lastFour?_append {front tail : String} (h : tail.length = 4) :
    lastFour? (front ++ tail) = some tail := by
  have hlength : tail.toList.length = 4 := h
  unfold lastFour?
  dsimp only
  rw [String.toList_append, List.length_append, hlength, if_pos (by omega),
    List.drop_left' (by omega), String.ofList_toList]

/-- The entries of an index are in the order of their names, so the first one of a kind is the
least. -/
theorem le_of_find? {wanted : Bytes × Path → Bool} {entry other : Bytes × Path}
    (h : index.files.toList.find? wanted = some entry) (hother : other ∈ index.files.toList)
    (hwanted : wanted other = true) : (compare entry.1 other.1).isLE := by
  obtain ⟨-, before, after, hsplit, hbefore⟩ := List.find?_eq_some_iff_append.1 h
  have hordered : index.files.toList.Pairwise fun a b => compare a.1 b.1 = .lt :=
    Std.TreeMap.ordered_keys_toList
  rw [hsplit] at hordered hother
  rcases List.mem_append.1 hother with hmem | hmem
  · have hnot := hbefore other hmem
    rw [hwanted] at hnot
    cases hnot
  · rcases List.mem_cons.1 hmem with rfl | hmem
    · rw [Std.ReflOrd.compare_self]
      rfl
    · have hlt := List.rel_of_pairwise_cons (List.pairwise_append.1 hordered).2.1 hmem
      rw [hlt]
      rfl

theorem mem_files {f : Bytes} (h : index.files[f]? = some path) : f ∈ index.files :=
  Std.TreeMap.mem_iff_isSome_getElem?.2 (Option.isSome_iff_exists.2 ⟨path, h⟩)

theorem find?_eq_some {jar : String} (h : index.find? jar = some path) :
    ∃ f, StandsFor (· ∈ index.files) jar f ∧ index.files[f]? = some path := by
  unfold find? at h
  rcases Option.or_eq_some_iff.1 h with hsame | ⟨hnone, hleast⟩
  · exact ⟨_, .same (mem_files hsame), hsame⟩
  · obtain ⟨tail, htail, hleast⟩ := Option.bind_eq_some_iff.1 hleast
    obtain ⟨entry, hentry, rfl⟩ := Option.map_eq_some_iff.1 hleast
    obtain ⟨⟨front, hjar⟩, hlength⟩ := lastFour?_eq_some htail
    have hfile : index.files[entry.1]? = some entry.2 :=
      Std.TreeMap.mem_toList_iff_getElem?_eq_some.1 (List.mem_of_find?_eq_some hentry)
    have habsent : Text.bytes jar ∉ index.files := by
      rw [Std.TreeMap.mem_iff_isSome_getElem?, hnone]
      nofun
    have hwanted := List.find?_some hentry
    have hbegins : Text.bytes tail <+: entry.1 := List.isPrefixOf_iff_prefix.1 hwanted
    refine ⟨entry.1, .least habsent hjar hlength (mem_files hfile) hbegins ?_, hfile⟩
    intro other hother hprefix
    obtain ⟨p, hp⟩ := Option.isSome_iff_exists.1 (Std.TreeMap.mem_iff_isSome_getElem?.1 hother)
    exact le_of_find? hentry (Std.TreeMap.mem_toList_iff_getElem?_eq_some.2 hp)
      (List.isPrefixOf_iff_prefix.2 hprefix)

/-- The least name of a kind is found. -/
theorem find?_of_least {wanted : Bytes × Path → Bool} {f : Bytes}
    (hfile : index.files[f]? = some path) (hwanted : wanted (f, path) = true)
    (hleast : ∀ entry ∈ index.files.toList, wanted entry = true → (compare f entry.1).isLE) :
    index.files.toList.find? wanted = some (f, path) := by
  have hmem : (f, path) ∈ index.files.toList :=
    Std.TreeMap.mem_toList_iff_getElem?_eq_some.2 hfile
  cases hfound : index.files.toList.find? wanted with
  | none => exact absurd hwanted (List.find?_eq_none.1 hfound _ hmem)
  | some first =>
    have hentry := List.mem_of_find?_eq_some hfound
    have hle := le_of_find? hfound hmem hwanted
    have hge := hleast first hentry (List.find?_some hfound)
    have hname : first.1 = f :=
      Std.LawfulEqOrd.eq_of_compare (Std.OrientedCmp.isLE_antisymm hle hge)
    have hheld := Std.TreeMap.mem_toList_iff_getElem?_eq_some.1 hentry
    rw [hname, hfile] at hheld
    rw [← hname, Option.some.inj hheld]

/-- What is found for a name, said without the search. -/
theorem find?_eq_some_iff {jar : String} :
    index.find? jar = some path ↔
      ∃ f, StandsFor (· ∈ index.files) jar f ∧ index.files[f]? = some path := by
  refine ⟨find?_eq_some, ?_⟩
  rintro ⟨f, hstands, hfile⟩
  unfold find?
  cases hstands with
  | same _ => rw [hfile, Option.some_or]
  | least habsent hjar hlength _ hbegins hleast =>
    rw [Std.TreeMap.mem_iff_isSome_getElem?, Bool.not_eq_true, Option.isSome_eq_false_iff,
      Option.isNone_iff_eq_none] at habsent
    rw [habsent, Option.none_or, hjar, lastFour?_append hlength, Option.bind_some,
      find?_of_least hfile (List.isPrefixOf_iff_prefix.2 hbegins), Option.map_some]
    intro entry hentry hwanted
    have hheld := Std.TreeMap.mem_toList_iff_getElem?_eq_some.1 hentry
    exact hleast entry.1 (mem_files hheld) (List.isPrefixOf_iff_prefix.1 hwanted)

/-! ## What a place in the repository says -/

theorem below?_pathTo (hroot : root.spelling ≠ [])
    (hnames : ∀ name ∈ names, (Path.Component.name name).IsOrdinary) :
    Path.below? root (pathTo root names) = some (names.map .name) :=
  Path.below?_eq_some_iff.2 (components_pathTo hroot hnames)

theorem texts_of_pathTo (hroot : root.spelling ≠ [])
    (hnames : ∀ name ∈ names, (Path.Component.name name).IsOrdinary)
    (htext : (pathTo root names).isText = true) :
    names = (names.map Text.ofBytes).map Text.bytes := by
  rw [List.map_map]
  refine (List.map_id names).symm.trans (List.map_congr_left fun name hname => ?_)
  have hcomponent : .name name ∈ (pathTo root names).components := by
    rw [components_pathTo hroot hnames]
    exact List.mem_append_right _ (List.mem_map_of_mem hname)
  obtain ⟨s, rfl⟩ := Path.exists_text_of_mem_components htext hcomponent
  exact congrArg Text.bytes (Text.ofBytes_bytes s).symm

/-- A module is read off a place four or more names below the root. -/
theorem coordinateOf?_pathTo (hroot : root.spelling ≠ [])
    (hnames : ∀ name ∈ names, (Path.Component.name name).IsOrdinary)
    (htext : (pathTo root names).isText = true)
    (h : coordinateOf? root (pathTo root names) = some c) :
    ∃ (group : List String) (artifact version f : String), group ≠ [] ∧
      names = (group ++ [artifact, version, f]).map Text.bytes ∧
      c = ⟨Text.join "." group, artifact, .fixed version⟩ := by
  obtain ⟨groups, a, v, f, hgroups, hcomponents, rfl⟩ := coordinateOf?_eq_some_iff.1 h
  rw [components_pathTo hroot hnames, List.append_cancel_left_eq] at hcomponents
  obtain ⟨group, rest, hsplit, rfl, hrest⟩ := List.map_eq_append_iff.1 hcomponents
  obtain ⟨artifact, versions, rfl, rfl, hversions⟩ := List.map_eq_cons_iff.1 hrest
  obtain ⟨version, files, rfl, rfl, hfiles⟩ := List.map_eq_cons_iff.1 hversions
  obtain ⟨file, none, rfl, rfl, hnone⟩ := List.map_eq_cons_iff.1 hfiles
  obtain rfl := List.map_eq_nil_iff.1 hnone
  refine ⟨group.map Text.ofBytes, Text.ofBytes artifact, Text.ofBytes version, Text.ofBytes file,
    by simpa using hgroups, ?_, ?_⟩
  · refine (texts_of_pathTo hroot hnames htext).trans ?_
    rw [hsplit, List.map_append]
    rfl
  · rw [List.map_map]
    rfl

end ArtifactIndex

namespace Generation

variable {t : FileTree} {scratch : Scratch} {settings : Settings} {request : Request}
  {repository : Path} {jar : String} {c : Coordinate}

/-- Where the coordinate of a binary named `jar` may come from: a naming rule gives it, or no rule
applies, and it is read off the place of the file of the repository that is looked up for `jar`. -/
inductive HasOrigin (t : FileTree) (settings : Settings) (repository : Path) (jar : String)
    (c : Coordinate) : Prop
  | ruled {rule : NamingRule} :
      NamingRule.ruling? settings jar = some (c, rule) → HasOrigin t settings repository jar c
  | located {directory : Location} {group : List String} {artifact version f : String} :
      NamingRule.ruling? settings jar = none →
      t.directory? repository = some directory →
      ArtifactIndex.StandsFor (fun name => ∃ names, ArtifactIndex.Records t directory repository
        settings.binaryExtension name names) jar (Text.bytes f) →
      ArtifactIndex.RecordsLast t directory repository settings.binaryExtension (Text.bytes f)
        ((group ++ [artifact, version, f]).map Text.bytes) →
      group ≠ [] → c = ⟨Text.join "." group, artifact, .fixed version⟩ →
      HasOrigin t settings repository jar c

/-- What the index of a survey makes of a name is read off the place of the file that it finds. -/
theorem located_of_identify? (ht : t.WellFormed) {index : ArtifactIndex} {path : Path}
    (hindex : (ArtifactIndex.survey t repository settings.binaryExtension).outcome = .ok index)
    (hrule : NamingRule.ruling? settings jar = none)
    (h : index.identify? jar = some (c, path)) : HasOrigin t settings repository jar c := by
  obtain ⟨directory, hdirectory, hlinks, rfl⟩ := ArtifactIndex.survey_ok hindex
  obtain ⟨found, hfound, hmodule⟩ := Option.bind_eq_some_iff.1 h
  obtain ⟨module, hmodule, hpair⟩ := Option.map_eq_some_iff.1 hmodule
  cases hpair
  obtain ⟨f, hstands, hfile⟩ := ArtifactIndex.find?_eq_some hfound
  obtain ⟨names, hlast, rfl⟩ :=
    (ArtifactIndex.files_collected_iff ht hdirectory hlinks).1 hfile
  have hroot : repository.spelling ≠ [] :=
    (FileTree.locate_ok (FileTree.directory?_eq_some hdirectory).1).1
  rw [ArtifactIndex.root_collected] at hmodule
  obtain ⟨group, artifact, version, last, hgroup, rfl, rfl⟩ := ArtifactIndex.coordinateOf?_pathTo
    hroot (ht.ordinary_of_reachesFile hlast.reached) hlast.isText hmodule
  have hrecorded : (· ∈ (ArtifactIndex.collected t directory repository
      settings.binaryExtension).files) = fun name => ∃ names, ArtifactIndex.Records t directory
        repository settings.binaryExtension name names :=
    funext fun name => propext (ArtifactIndex.mem_collected_iff ht hdirectory hlinks _ name)
  rw [hrecorded] at hstands
  have hname : Text.bytes last = f := by simpa using hlast.named
  subst hname
  exact .located hrule hdirectory hstands hlast hgroup rfl

theorem identify_origin (ht : t.WellFormed) {m : Mapping} (hsettings : m.settings = settings)
    (hindex : (ArtifactIndex.survey t repository settings.binaryExtension).outcome = .ok m.index)
    (h : (m.identify jar).coordinate? = some c) : HasOrigin t settings repository jar c := by
  unfold Mapping.identify at h
  rw [hsettings] at h
  split at h
  · rename_i module rule hrule
    cases h
    exact .ruled hrule
  · rename_i hrule
    split at h
    · rename_i module path hfound
      cases h
      exact located_of_identify? ht hindex hrule hfound
    · cases h

/-- No coordinate is made up: each one in a report belongs to a binary of its archive, and is the
answer of a naming rule or read off the place of one file in the repository. -/
theorem runIn_coordinates (ht : t.WellFormed) {summary : Summary} {d : Distribution}
    (h : (runIn t scratch settings request).2.outcome = .ok summary)
    (hd : d ∈ summary.distributions) (hc : c ∈ d.coordinates) :
    ∃ files file,
      contents t (scratch d.archive) (request.archives.join (.ofString d.archive)) =
        (t, .ok files) ∧
      file ∈ files ∧ settings.includes file = true ∧
      HasOrigin t settings request.repository file.nameText c := by
  obtain ⟨p, hp, hx⟩ := runIn_ok h
  obtain ⟨s, hs, -, -, hwork⟩ := plan_ok hp
  obtain ⟨hsettings, -, hindex⟩ := setup_ok hs
  rw [execute_distributions hx] at hd
  obtain ⟨i, hi, rfl⟩ := List.getElem_of_mem hd
  obtain ⟨files, hfiles, hholding⟩ := distribution_ok (hwork.get (hwork.length_eq ▸ hi) hi)
  rw [List.get_eq_getElem] at hholding
  rw [hholding] at hc ⊢
  rw [Mapping.holding_coordinates] at hc
  obtain ⟨file, hfile, hmodule⟩ :=
    List.mem_filterMap.1 ((List.mergeSort_perm _ _).mem_iff.1 hc)
  have hpackaged := (s.mapping.sortedBy_packaged files).perm.mem_iff.1 hfile
  rw [hsettings] at hpackaged
  obtain ⟨hmem, hincludes⟩ := List.mem_filter.1 hpackaged
  exact ⟨files, file, hfiles, hmem, hincludes, identify_origin ht hsettings hindex hmodule⟩

/-- An archive with two binaries, and a repository that has the second one. -/
def stocked (archive : ByteArray) : FileTree where
  entries := [
    ([Text.bytes "dists"], .directory),
    ([Text.bytes "dists", Text.bytes "apache-tomee-plus-8.0.6.zip"], .file archive),
    ([Text.bytes "m2"], .directory),
    ([Text.bytes "m2", Text.bytes "org"], .directory),
    ([Text.bytes "m2", Text.bytes "org", Text.bytes "x"], .directory),
    ([Text.bytes "m2", Text.bytes "org", Text.bytes "x", Text.bytes "1"], .directory),
    ([Text.bytes "m2", Text.bytes "org", Text.bytes "x", Text.bytes "1", Text.bytes "x-1.jar"],
      .file .empty)]

def stockedIndex : ArtifactIndex :=
  (ArtifactIndex.empty (.ofString "m2")).record (.ofString "m2/org/x/1/x-1.jar")

theorem stocked_index (archive : ByteArray) :
    (ArtifactIndex.survey (stocked archive) (.ofString "m2") "jar").outcome = .ok stockedIndex := by
  have hdirectory : (stocked archive).directory? (.ofString "m2") = some [Text.bytes "m2"] := rfl
  have hseen : (stocked archive).sightings [Text.bytes "m2"] =
      [.file [Text.bytes "org", Text.bytes "x", Text.bytes "1", Text.bytes "x-1.jar"]] :=
    FileTree.walk_of_holdsOnly ⟨rfl, rfl, rfl, rfl, rfl, rfl, rfl, rfl, .empty, rfl⟩
  have hlinks (names : List Bytes) : ¬(stocked archive).MeetsBadLink [Text.bytes "m2"] names := by
    rw [← FileTree.fault_mem_sightings_iff, hseen]
    simp
  rw [ArtifactIndex.survey_eq_collected "jar" hdirectory hlinks, ArtifactIndex.collected, hseen]
  rfl

def stockedTree : FileTree := stocked (archiveOf ["lib/x-1.jar", "notice.txt"])

def stockedDistribution : Distribution :=
  (⟨{}, stockedIndex⟩ : Mapping).holding "apache-tomee-plus-8.0.6.zip"
    [.ofString "lib/x-1.jar", .ofString "notice.txt"]

def dryRequest : Request := { plainRequest with dryRun := true }

theorem stocked_plan :
    (plan stockedTree (fun _ => some stockedTree.unusedPath) {} dryRequest).2.outcome =
      .ok ⟨.builtin, [stockedDistribution]⟩ := by
  have harchives : (Selection.archives stockedTree dryRequest.archives {}).outcome =
      .ok ["apache-tomee-plus-8.0.6.zip"] :=
    archives_of_selected (by decide +kernel) (by decide) (by decide)
  have hs : (setup stockedTree {} dryRequest).outcome =
      .ok ⟨["apache-tomee-plus-8.0.6.zip"], .builtin, ⟨{}, stockedIndex⟩⟩ :=
    setup_of_parts rfl harchives rfl (stocked_index _)
  have hf : ∀ archive ∈ ["apache-tomee-plus-8.0.6.zip"],
      (contents stockedTree (some stockedTree.unusedPath)
        (dryRequest.archives.join (.ofString archive))).2 =
          .ok [.ofString "lib/x-1.jar", .ofString "notice.txt"] := by
    intro archive ha
    rw [List.mem_singleton.1 ha]
    decide +kernel
  have hcomplete : stockedDistribution.unknown = [] := by decide +kernel
  have hnone : Distribution.shortfalls [stockedDistribution] = [] := by
    rw [Distribution.shortfalls_eq_nil]
    simpa using hcomplete
  refine (plan_of_contents hs hf).trans ?_
  show gate .builtin [stockedDistribution] = _
  rw [gate, hnone]

theorem stocked_coordinates :
    ∃ summary file,
      (run stockedTree true {} dryRequest).2.outcome = .ok summary ∧
        stockedDistribution ∈ summary.distributions ∧
        ⟨"org", "x", .fixed "1"⟩ ∈ stockedDistribution.coordinates ∧
        HasOrigin stockedTree {} (.ofString "m2") (Path.nameText file)
          ⟨"org", "x", .fixed "1"⟩ := by
  have ht : stockedTree.WellFormed := .of_entries (by decide +kernel)
  have hc : ⟨"org", "x", .fixed "1"⟩ ∈ stockedDistribution.coordinates := by decide +kernel
  have hd : stockedDistribution ∈ [stockedDistribution] := List.mem_singleton_self _
  have hrun : (run stockedTree true {} dryRequest).2.outcome =
      .ok ⟨[stockedDistribution], [], true⟩ := (runIn_of_plan_ok stocked_plan).2
  obtain ⟨-, file, -, -, -, horigin⟩ := runIn_coordinates ht hrun hd hc
  exact ⟨_, file, hrun, hd, hc, horigin⟩

end Generation
end BillOfMaterials
