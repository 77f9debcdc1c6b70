import BillOfMaterials.Proofs.Outcomes
import BillOfMaterials.Proofs.Runs
import BillOfMaterials.Proofs.Sorting
import Mathlib.Data.List.Forall2

/-!
# What a run reports

A successful run reports one distribution for each selected archive, and the distribution lists what
the packaged binaries of the archive map to: each binary once, none that is excluded, none that is
no binary. A run that is refused for unknown binaries reports all of them, whatever the position of
their archives. Both are read off the list of files that unpacking an archive gives; how that list
comes about is not a matter of this module.
-/
namespace BillOfMaterials

def Path.nameText (p : Path) : String := Text.ofBytes (p.fileName?.getD [])

/-- Whether a file is a binary that belongs to the manifest. -/
def Settings.includes (settings : Settings) (file : Path) : Bool :=
  file.extension? == some (Text.bytes settings.binaryExtension) && !settings.excludes file.nameText

namespace Mapping

variable (m : Mapping)

def moduleOf? (file : Path) : Option Coordinate := (m.identify file.nameText).coordinate?

/-- Whether a file is a binary that belongs to the manifest and is unknown. -/
def misses (file : Path) : Bool := m.settings.includes file && (m.moduleOf? file).isNone

/-- The binaries that belong to the manifest, in the order of their paths. -/
def packaged (files : List Path) : List Path :=
  (Binary.paths m.settings.binaryExtension files).filter fun file =>
    !m.settings.excludes file.nameText

/-- The binaries that belong to the manifest and are unknown, in the order of their paths. -/
def missed (files : List Path) : List Path :=
  (m.packaged files).filter fun file => (m.moduleOf? file).isNone

def holding (archive : String) (files : List Path) : Distribution :=
  m.distribution archive (Binary.names m.settings.binaryExtension files)

end Mapping

theorem Identity.coordinate?_eq_none {i : Identity} : i.coordinate? = none ↔ i = .unknown := by
  cases i <;> simp [coordinate?]

theorem Mapping.misses_iff {m : Mapping} {file : Path} :
    m.misses file = true ↔
      file.extension? = some (Text.bytes m.settings.binaryExtension) ∧
        m.settings.excludes file.nameText = false ∧ m.identify file.nameText = .unknown := by
  simp [misses, Settings.includes, moduleOf?, Option.isNone_iff_eq_none,
    Identity.coordinate?_eq_none, and_assoc]

/-- A distribution lists what files map to: the binaries among them that belong to the manifest,
taken in the order of their paths, are mapped to a module each, and the modules are put in the order
of their names. -/
def Distribution.Lists (d : Distribution) (m : Mapping) (files : List Path) : Prop :=
  ∃ paths coordinates,
    SortedBy Path.order (files.filter m.settings.includes) paths ∧
    List.Forall₂ (fun file c => m.moduleOf? file = some c) paths coordinates ∧
    SortedBy Coordinate.moduleOrder coordinates d.coordinates ∧ d.unknown = []

/-! ## One archive -/

section OneArchive

variable {m : Mapping} {archive : String} {files : List Path}

theorem Mapping.sortedBy_packaged (m : Mapping) (files : List Path) :
    SortedBy Path.order (files.filter m.settings.includes) (m.packaged files) := by
  have hsorted : SortedBy Path.order (files.filter fun file =>
      file.extension? == some (Text.bytes m.settings.binaryExtension))
      (Binary.paths m.settings.binaryExtension files) := .mergeSort _
  have h := hsorted.filter fun file => !m.settings.excludes file.nameText
  rw [List.filter_filter] at h
  have hswap : (fun file : Path => !m.settings.excludes file.nameText &&
      file.extension? == some (Text.bytes m.settings.binaryExtension)) = m.settings.includes := by
    funext file
    exact Bool.and_comm _ _
  rw [hswap] at h
  exact h

/-- Every binary has a file name, so its name is in the list. -/
theorem Binary.names_eq (extension : String) (files : List Path) :
    names extension files = (paths extension files).map Path.nameText := by
  have hname : ∀ file ∈ paths extension files,
      file.fileName?.map Text.ofBytes = some file.nameText := by
    intro file hf
    have he := (List.mem_filter.1 ((List.mergeSort_perm _ _).mem_iff.1 hf)).2
    unfold Path.nameText
    cases hn : file.fileName? with
    | none => simp [Path.extension?, hn] at he
    | some name => rfl
  unfold names
  rw [List.filterMap_congr hname, List.filterMap_eq_map']

theorem Mapping.included_names (m : Mapping) (files : List Path) :
    m.included (Binary.names m.settings.binaryExtension files) =
      (m.packaged files).map Path.nameText := by
  rw [Binary.names_eq, included, List.filter_map]
  rfl

theorem Mapping.holding_coordinates :
    (m.holding archive files).coordinates =
      Coordinate.sortByModule ((m.packaged files).filterMap m.moduleOf?) := by
  unfold holding distribution
  dsimp only
  rw [included_names, List.filterMap_map]
  rfl

theorem Mapping.holding_unknown :
    (m.holding archive files).unknown = (m.missed files).map Path.nameText := by
  unfold holding distribution
  dsimp only
  rw [included_names, List.filter_map]
  rfl

theorem Mapping.sortedBy_missed (m : Mapping) (files : List Path) :
    SortedBy Path.order (files.filter m.misses) (m.missed files) := by
  have h := (m.sortedBy_packaged files).filter fun file => (m.moduleOf? file).isNone
  rw [List.filter_filter] at h
  have hswap : (fun file : Path => (m.moduleOf? file).isNone && m.settings.includes file) =
      m.misses := by
    funext file
    exact Bool.and_comm _ _
  rw [hswap] at h
  exact h

theorem Mapping.holding_unknown_eq_nil :
    (m.holding archive files).unknown = [] ↔
      ∀ file ∈ files, m.misses file = false := by
  have hperm := (m.sortedBy_missed files).perm
  rw [holding_unknown, List.map_eq_nil_iff]
  constructor
  · intro h
    rw [h] at hperm
    have hnone := List.filter_eq_nil_iff.1 (List.nil_perm.1 hperm)
    intro file hf
    simpa using hnone file hf
  · intro h
    have hnone : files.filter m.misses = [] :=
      List.filter_eq_nil_iff.2 fun file hf => by simp [h file hf]
    rw [hnone] at hperm
    exact List.perm_nil.1 hperm

theorem Mapping.isComplete_holding :
    (m.holding archive files).isComplete =
      !files.any m.misses := by
  rw [Bool.eq_iff_iff, Distribution.isComplete, List.isEmpty_iff, holding_unknown_eq_nil]
  simp

theorem forall₂_filterMap {α β : Type} {f : α → Option β} {xs : List α}
    (h : ∀ a ∈ xs, (f a).isSome) : List.Forall₂ (fun a b => f a = some b) xs (xs.filterMap f) := by
  induction xs with
  | nil => exact .nil
  | cons a rest ih =>
    obtain ⟨b, hb⟩ := Option.isSome_iff_exists.1 (h a List.mem_cons_self)
    rw [List.filterMap_cons_some hb]
    exact .cons hb (ih fun x hx => h x (List.mem_cons_of_mem _ hx))

/-- A distribution without unknown binaries lists what the files map to. -/
theorem Mapping.holding_lists
    (h : (m.holding archive files).unknown = []) :
    (m.holding archive files).Lists m files := by
  have hknown : ∀ file ∈ m.packaged files, (m.moduleOf? file).isSome := by
    intro file hf
    rw [holding_unknown, List.map_eq_nil_iff] at h
    have hne := List.filter_eq_nil_iff.1 h file hf
    simpa [Option.isSome_iff_ne_none] using hne
  refine ⟨m.packaged files, _, m.sortedBy_packaged files, forall₂_filterMap hknown, ?_, h⟩
  rw [holding_coordinates]
  exact .mergeSort _

end OneArchive

/-! ## The gate -/

theorem Distribution.shortfalls_eq_nil {ds : List Distribution} :
    shortfalls ds = [] ↔ ∀ d ∈ ds, d.unknown = [] := by
  simp [shortfalls, isComplete]

namespace Generation

theorem gate_ok {template : Bom.Template} {ds : List Distribution} {p : Plan}
    (h : gate template ds = .ok p) : p = ⟨template, ds⟩ ∧ ∀ d ∈ ds, d.unknown = [] := by
  unfold gate at h
  split at h
  · rename_i hnil
    cases h
    exact ⟨rfl, Distribution.shortfalls_eq_nil.1 hnil⟩
  · cases h

theorem gate_error_iff {template : Bom.Template} {ds : List Distribution} {failure : Failure} :
    gate template ds = .error failure ↔
      failure = .incomplete (Distribution.shortfalls ds) ∧ ∃ d ∈ ds, d.unknown ≠ [] := by
  have hne : (∃ d ∈ ds, d.unknown ≠ []) ↔ Distribution.shortfalls ds ≠ [] := by
    rw [Ne, Distribution.shortfalls_eq_nil]
    push Not
    rfl
  rw [hne]
  unfold gate
  cases hs : Distribution.shortfalls ds with
  | nil => simp
  | cons first rest => simp [eq_comm]

/-! ## The whole run -/

variable {t : FileTree} {scratch : Scratch} {settings : Settings} {request : Request}

theorem archives_ok {directory : Path} {names : List String}
    (h : (Selection.archives t directory settings).outcome = .ok names) :
    ∃ location, t.directory? directory = some location ∧
      names = Selection.archiveNames settings (Selection.fileNames t location) := by
  unfold Selection.archives at h
  cases hd : t.directory? directory with
  | none => rw [hd] at h; cases h
  | some location =>
    rw [hd] at h
    refine ⟨location, rfl, ?_⟩
    dsimp only at h
    rw [Logged.outcome_bind] at h
    obtain ⟨-, -, h⟩ := bind_eq_ok_iff.1 h
    split at h
    · cases h
    · rename_i selected hs
      cases h
      rfl

theorem setup_ok {s : Setup} (h : (setup t settings request).outcome = .ok s) :
    s.mapping.settings = settings ∧
      (Selection.archives t request.archives settings).outcome = .ok s.archives ∧
      (ArtifactIndex.survey t request.repository settings.binaryExtension).outcome =
        .ok s.mapping.index := by
  unfold setup at h
  split at h
  · rw [Logged.outcome_bind] at h
    cases h
  simp only [Logged.outcome_bind] at h
  obtain ⟨archives, ha, h⟩ := bind_eq_ok_iff.1 h
  obtain ⟨template, -, h⟩ := bind_eq_ok_iff.1 h
  obtain ⟨index, hi, h⟩ := bind_eq_ok_iff.1 h
  cases h
  exact ⟨rfl, ha, hi⟩

theorem archives_of_selected {directory : Path} {selected : List String}
    (hselected : (t.directory? directory).map (fun location =>
      ((Selection.fileNames t location).filterMap Text.ofBytes?).filter
        (Selection.isArchive settings)) = some selected)
    (hsorted : selected.Pairwise fun a b => (Text.order a b).isLE) (hne : selected ≠ []) :
    (Selection.archives t directory settings).outcome = .ok selected := by
  obtain ⟨location, hd, hfilter⟩ := Option.map_eq_some_iff.1 hselected
  have hnames : Selection.archiveNames settings (Selection.fileNames t location) = selected := by
    unfold Selection.archiveNames
    rw [hfilter]
    exact List.mergeSort_of_pairwise hsorted
  unfold Selection.archives
  simp only [hd, Logged.outcome_bind, hnames]
  cases selected with
  | nil => exact absurd rfl hne
  | cons first rest => rfl

theorem setup_of_parts {archives : List String} {template : Bom.Template}
    {index : ArtifactIndex}
    (hd : t.isDirectory request.archives = true)
    (ha : (Selection.archives t request.archives settings).outcome = .ok archives)
    (ht : Generation.template t request.template = .ok template)
    (hi : (ArtifactIndex.survey t request.repository settings.binaryExtension).outcome =
      .ok index) :
    (setup t settings request).outcome = .ok ⟨archives, template, ⟨settings, index⟩⟩ := by
  unfold setup
  rw [if_neg (by simp [hd])]
  simp only [Logged.outcome_bind, Logged.outcome_pure, ha, ht, hi, Logged.of]
  rfl

/-- The selected archives are the files of the directory that are named as archives, in the byte
order of their names. -/
theorem sortedBy_setup {s : Setup} (h : (setup t settings request).outcome = .ok s) :
    ∃ location, t.directory? request.archives = some location ∧
      SortedBy Text.order
        (((Selection.fileNames t location).filterMap Text.ofBytes?).filter
          (Selection.isArchive settings)) s.archives := by
  obtain ⟨location, hl, hn⟩ := archives_ok (setup_ok h).2.1
  rw [hn]
  exact ⟨location, hl, .mergeSort _⟩

theorem distribution_ok {m : Mapping} {archive : String} {d : Distribution}
    (h : (distribution scratch m request.archives t archive).2.outcome = .ok d) :
    ∃ files, contents t (scratch archive) (request.archives.join (.ofString archive)) =
        (t, .ok files) ∧
      d = m.holding archive files := by
  have htree := contents_tree t (scratch archive) (request.archives.join (.ofString archive))
  rw [distribution_outcome] at h
  generalize contents t (scratch archive) (request.archives.join (.ofString archive)) = found at *
  obtain ⟨t', files⟩ := found
  cases files with
  | error failure => cases h
  | ok files =>
    cases h
    cases htree
    exact ⟨files, rfl, rfl⟩

/-- What a planned batch is made of: one distribution for each archive, complete, and made of the
files that the archive gave. -/
theorem plan_ok {p : Plan} (h : (plan t scratch settings request).2.outcome = .ok p) :
    ∃ s, (setup t settings request).outcome = .ok s ∧ p.template = s.template ∧
      (∀ d ∈ p.distributions, d.unknown = []) ∧
      List.Forall₂ (fun archive d =>
        (distribution scratch s.mapping request.archives t archive).2.outcome = .ok d)
        s.archives p.distributions := by
  cases hs : (setup t settings request).outcome with
  | error failure =>
    unfold plan at h
    simp only [hs] at h
    cases h
  | ok s =>
    rw [plan_outcome hs] at h
    obtain ⟨ds, hds, hg⟩ := bind_eq_ok_iff.1 h
    obtain ⟨rfl, hcomplete⟩ := gate_ok hg
    have hwork := (inTurn_ok_iff fun a _ => distribution_tree s.mapping request.archives t a).1 hds
    exact ⟨s, rfl, rfl, hcomplete, hwork⟩

theorem runIn_ok {summary : Summary}
    (h : (runIn t scratch settings request).2.outcome = .ok summary) :
    ∃ p, (plan t scratch settings request).2.outcome = .ok p ∧
      (execute t request p).2.outcome = .ok summary := by
  cases hp : (plan t scratch settings request).2.outcome with
  | error failure =>
    rw [(runIn_of_plan_error hp).2] at h
    cases h
  | ok p =>
    rw [(runIn_of_plan_ok hp).2] at h
    exact ⟨p, rfl, h⟩

theorem execute_distributions {p : Plan} {summary : Summary}
    (h : (execute t request p).2.outcome = .ok summary) :
    summary.distributions = p.distributions := by
  cases hd : request.dryRun with
  | true =>
    rw [(execute_dry hd).2] at h
    cases h
    rfl
  | false =>
    rw [(execute_real hd).2] at h
    cases hw : (inTurn (writeManifest p.template request.style request.output) p.distributions
        t).2.outcome with
    | error failure =>
      rw [hw] at h
      cases h
    | ok written =>
      rw [hw] at h
      cases h
      rfl

/-- A successful run reports one distribution for each selected archive, in the byte order of the
archives' names, and each lists what the files of its archive map to. -/
theorem runIn_lists {summary : Summary}
    (h : (runIn t scratch settings request).2.outcome = .ok summary) :
    ∃ s location, (setup t settings request).outcome = .ok s ∧ s.mapping.settings = settings ∧
      t.directory? request.archives = some location ∧
      SortedBy Text.order
        (((Selection.fileNames t location).filterMap Text.ofBytes?).filter
          (Selection.isArchive settings)) s.archives ∧
      List.Forall₂ (fun archive d => d.archive = archive ∧
        ∃ files, contents t (scratch archive) (request.archives.join (.ofString archive)) =
            (t, .ok files) ∧ d.Lists s.mapping files)
        s.archives summary.distributions := by
  obtain ⟨p, hp, hx⟩ := runIn_ok h
  obtain ⟨s, hs, -, hcomplete, hwork⟩ := plan_ok hp
  obtain ⟨location, hl, hsorted⟩ := sortedBy_setup hs
  refine ⟨s, location, hs, (setup_ok hs).1, hl, hsorted, ?_⟩
  rw [execute_distributions hx]
  have hboth : List.Forall₂ (fun archive d => d.unknown = [] ∧
      (distribution scratch s.mapping request.archives t archive).2.outcome = .ok d)
      s.archives p.distributions := by
    refine List.forall₂_iff_zip.2 ⟨hwork.length_eq, fun hz => ⟨?_, List.forall₂_zip hwork hz⟩⟩
    exact hcomplete _ (List.of_mem_zip hz).2
  refine hboth.imp ?_
  rintro archive d ⟨hu, ho⟩
  obtain ⟨files, hf, rfl⟩ := distribution_ok ho
  exact ⟨rfl, files, hf, Mapping.holding_lists hu⟩

/-- One archive with one binary, which a naming rule knows, and a file that is no binary. -/
def known : FileTree :=
  treeOf [("apache-tomee-plus-8.0.6.zip", archiveOf ["lib/ecj-3.jar", "notice.txt"])]

theorem known_lists :
    ∃ summary s, (run known true {} plainRequest).2.outcome = .ok summary ∧
      (setup known {} plainRequest).outcome = .ok s ∧
      List.Forall₂ (fun archive d => d.archive = archive ∧
        ∃ files, contents known (some known.unusedPath)
            (plainRequest.archives.join (.ofString archive)) = (known, .ok files) ∧
          d.Lists s.mapping files)
        s.archives summary.distributions := by
  obtain ⟨summary, hok⟩ := exists_of_isOk (x := (run known true {} plainRequest).2.outcome)
    (by decide +kernel)
  obtain ⟨s, -, hs, -, -, -, hlists⟩ := runIn_lists hok
  exact ⟨summary, s, hok, hs, hlists⟩

/-- Only the gate refuses a batch for unknown binaries. -/
theorem runIn_incomplete_iff_plan {shortfalls : List Shortfall} :
    (runIn t scratch settings request).2.outcome = .error (.incomplete shortfalls) ↔
      (plan t scratch settings request).2.outcome = .error (.incomplete shortfalls) := by
  cases hp : (plan t scratch settings request).2.outcome with
  | error failure =>
    rw [(runIn_of_plan_error hp).2]
    simp only [Except.error.injEq]
  | ok p =>
    rw [(runIn_of_plan_ok hp).2]
    constructor
    · intro h
      obtain ⟨-, path, hpath⟩ := execute_error h
      cases hpath
    · intro h
      cases h

/-- Where every archive is unpacked, the gate decides on all of them. -/
theorem plan_of_contents {s : Setup} {files : String → List Path}
    (hs : (setup t settings request).outcome = .ok s)
    (hf : ∀ archive ∈ s.archives,
      (contents t (scratch archive) (request.archives.join (.ofString archive))).2 =
        .ok (files archive)) :
    (plan t scratch settings request).2.outcome =
      gate s.template
        (s.archives.map fun archive => s.mapping.holding archive (files archive)) := by
  rw [plan_outcome hs]
  have hwork : List.Forall₂ (fun archive d =>
      (distribution scratch s.mapping request.archives t archive).2.outcome = .ok d) s.archives
      (s.archives.map fun archive => s.mapping.holding archive (files archive)) := by
    rw [List.forall₂_map_right_iff, List.forall₂_same]
    intro archive ha
    rw [distribution_outcome, hf archive ha]
    rfl
  rw [(inTurn_ok_iff fun a _ => distribution_tree s.mapping request.archives t a).2 hwork]
  rfl

theorem plan_of_parts {archives : List String} {template : Bom.Template}
    {files : String → List Path} {ds : List Distribution}
    (hd : t.isDirectory request.archives = true)
    (ha : (Selection.archives t request.archives settings).outcome = .ok archives)
    (ht : Generation.template t request.template = .ok template)
    (hf : ∀ archive ∈ archives,
      (contents t (scratch archive) (request.archives.join (.ofString archive))).2 =
        .ok (files archive))
    (hds : (ArtifactIndex.survey t request.repository
      settings.binaryExtension).outcome.toOption.map (fun index => archives.map fun archive =>
        (⟨settings, index⟩ : Mapping).holding archive (files archive)) = some ds)
    (hcomplete : Distribution.shortfalls ds = []) :
    (plan t scratch settings request).2.outcome = .ok ⟨template, ds⟩ := by
  cases hi : (ArtifactIndex.survey t request.repository settings.binaryExtension).outcome with
  | error failure =>
    rw [hi] at hds
    cases hds
  | ok index =>
    rw [hi] at hds
    have hheld : (archives.map fun archive =>
        (⟨settings, index⟩ : Mapping).holding archive (files archive)) = ds := Option.some.inj hds
    rw [plan_of_contents (setup_of_parts hd ha ht hi) hf]
    dsimp only
    unfold gate
    rw [hheld, hcomplete]

theorem shortfalls_holding {m : Mapping} {archives : List String} {files : String → List Path} :
    Distribution.shortfalls (archives.map fun archive => m.holding archive (files archive)) =
      (archives.filter fun archive => (files archive).any m.misses).map fun archive =>
        ⟨archive, (m.missed (files archive)).map Path.nameText⟩ := by
  unfold Distribution.shortfalls
  rw [List.filter_map, List.map_map]
  have hfilter : ∀ archive, (!(m.holding archive (files archive)).isComplete) =
      (files archive).any m.misses := by
    intro archive
    rw [Mapping.isComplete_holding, Bool.not_not]
  have hshort : ∀ archive, (⟨(m.holding archive (files archive)).archive,
      (m.holding archive (files archive)).unknown⟩ : Shortfall) =
        ⟨archive, (m.missed (files archive)).map Path.nameText⟩ := by
    intro archive
    rw [Mapping.holding_unknown]
    rfl
  simp only [Function.comp_def, hfilter, hshort]

theorem exists_missed_iff {m : Mapping} {archives : List String} {files : String → List Path} :
    (∃ d ∈ archives.map fun archive => m.holding archive (files archive), d.unknown ≠ []) ↔
      ∃ archive ∈ archives, ∃ file ∈ files archive, m.misses file = true := by
  simp only [List.mem_map]
  constructor
  · rintro ⟨d, ⟨archive, ha, rfl⟩, hu⟩
    rw [Ne, Mapping.holding_unknown_eq_nil] at hu
    push Not at hu
    obtain ⟨file, hfile, hm⟩ := hu
    exact ⟨archive, ha, file, hfile, by simpa using hm⟩
  · rintro ⟨archive, ha, file, hfile, hm⟩
    refine ⟨_, ⟨archive, ha, rfl⟩, ?_⟩
    rw [Ne, Mapping.holding_unknown_eq_nil]
    intro hnone
    rw [hnone file hfile] at hm
    cases hm

/-- Where every archive is unpacked, a run is refused for unknown binaries exactly if some archive
holds one, and the report then names all the archives that hold one and all that they hold, in
order. -/
theorem runIn_incomplete_iff {s : Setup} {files : String → List Path}
    (hs : (setup t settings request).outcome = .ok s)
    (hf : ∀ archive ∈ s.archives,
      (contents t (scratch archive) (request.archives.join (.ofString archive))).2 =
        .ok (files archive)) :
    ((∃ shortfalls,
        (runIn t scratch settings request).2.outcome = .error (.incomplete shortfalls)) ↔
      ∃ archive ∈ s.archives, ∃ file ∈ files archive,
        file.extension? = some (Text.bytes settings.binaryExtension) ∧
          settings.excludes file.nameText = false ∧
          s.mapping.identify file.nameText = .unknown) ∧
    ∀ shortfalls, (runIn t scratch settings request).2.outcome = .error (.incomplete shortfalls) →
      shortfalls.map (·.archive) =
        s.archives.filter (fun archive => (files archive).any s.mapping.misses) ∧
      (shortfalls.map (·.archive)).Pairwise (fun a b => (Text.order a b).isLE) ∧
      ∀ short ∈ shortfalls, ∃ missed,
        SortedBy Path.order ((files short.archive).filter s.mapping.misses) missed ∧
          short.unknown = missed.map Path.nameText := by
  have hmisses : ∀ file, s.mapping.misses file = true ↔
      file.extension? = some (Text.bytes settings.binaryExtension) ∧
        settings.excludes file.nameText = false ∧
        s.mapping.identify file.nameText = .unknown := by
    intro file
    rw [Mapping.misses_iff, (setup_ok hs).1]
  simp only [runIn_incomplete_iff_plan, plan_of_contents hs hf, gate_error_iff,
    Failure.incomplete.injEq, exists_missed_iff, ← hmisses]
  constructor
  · exact ⟨fun ⟨_, _, hmissed⟩ => hmissed, fun hmissed => ⟨_, rfl, hmissed⟩⟩
  · rintro shortfalls ⟨rfl, -⟩
    obtain ⟨location, -, hsorted⟩ := sortedBy_setup hs
    rw [shortfalls_holding]
    have harchives : ∀ xs : List String, (xs.map fun archive => (⟨archive,
        (s.mapping.missed (files archive)).map Path.nameText⟩ : Shortfall)).map (·.archive) =
        xs := by
      intro xs
      rw [List.map_map]
      exact List.map_id xs
    rw [harchives]
    refine ⟨rfl, hsorted.ordered.filter _, ?_⟩
    intro short hshort
    obtain ⟨archive, -, rfl⟩ := List.mem_map.1 hshort
    exact ⟨_, s.mapping.sortedBy_missed (files archive), rfl⟩

/-- One archive with one binary, which nothing knows. -/
def lost : FileTree :=
  treeOf [("apache-tomee-plus-8.0.6.zip", archiveOf ["lib/lost.jar", "notice.txt"])]

theorem lost_is_incomplete :
    ∃ s, (setup lost {} plainRequest).outcome = .ok s ∧
      (∀ archive ∈ s.archives, (contents lost (some lost.unusedPath)
        (plainRequest.archives.join (.ofString archive))).2 =
          .ok [.ofString "lib/lost.jar", .ofString "notice.txt"]) ∧
      ∃ shortfalls, (run lost true {} plainRequest).2.outcome = .error (.incomplete shortfalls) := by
  obtain ⟨s, hs⟩ := exists_of_isOk (x := (setup lost {} plainRequest).outcome) (by decide +kernel)
  have hfound : (setup lost {} plainRequest).outcome.toOption.map (fun s => (s.archives,
      s.mapping.misses (.ofString "lib/lost.jar"))) =
        some (["apache-tomee-plus-8.0.6.zip"], true) := by decide +kernel
  rw [hs] at hfound
  obtain ⟨harchives, hmisses⟩ := Prod.mk.inj (Option.some.inj hfound)
  have hf : ∀ archive ∈ s.archives, (contents lost (some lost.unusedPath)
      (plainRequest.archives.join (.ofString archive))).2 =
        .ok [.ofString "lib/lost.jar", .ofString "notice.txt"] := by
    intro archive ha
    rw [harchives, List.mem_singleton] at ha
    rw [ha]
    decide +kernel
  rw [Mapping.misses_iff, (setup_ok hs).1] at hmisses
  refine ⟨s, hs, hf, (runIn_incomplete_iff hs hf).1.2 ⟨_, harchives ▸ List.mem_cons_self, ?_⟩⟩
  exact ⟨_, List.mem_cons_self, hmisses⟩

end Generation
end BillOfMaterials
