import BillOfMaterials.Proofs.Additions
import BillOfMaterials.Proofs.Manifests
import BillOfMaterials.Proofs.Survey

/-!
# Which failure is reported

A run goes through its stages in one order: the directory of the archives, the selection, the
template, the repository, each archive in turn, the gate, each manifest in turn. Several stages may
have something to report at once, and then the first one does; what a later stage would meet does
not matter. So for each kind of failure there is one condition, which says of all stages before it
that they went well. The conditions are told here in terms of the tree and of what a stage works
with, not of the run, and a run that meets none of them succeeds. A temporary directory that cannot
be made is left out.
-/
namespace BillOfMaterials

open FileTree

/-! ## What a stage works with -/

/-- The archives that are selected in a directory: one at least, in the byte order of their
names. -/
structure Selection.Selects (t : FileTree) (settings : Settings) (directory : Path)
    (names : List String) : Prop where
  sorted : ∃ location, t.directory? directory = some location ∧
    SortedBy Text.order
      (((fileNames t location).filterMap Text.ofBytes?).filter (isArchive settings)) names
  nonempty : names ≠ []

namespace Generation

/-- The template that is filled: the built-in one, or the text of the file that is given. -/
inductive Fills (t : FileTree) : Option Path → Bom.Template → Prop
  | builtin : Fills t none .builtin
  | given {path text} (h : t.readText? path = some text) : Fills t (some path) ⟨text⟩

/-- Everything that a run works with has been found. -/
inductive Ready (t : FileTree) (settings : Settings) (request : Request) : Setup → Prop
  | intro {archives template directory}
      (selects : Selection.Selects t settings request.archives archives)
      (fills : Fills t request.template template)
      (found : t.directory? request.repository = some directory)
      (sound : ∀ names, ¬t.MeetsBadLink directory names) :
    Ready t settings request ⟨archives, template, ⟨settings,
      ArtifactIndex.collected t directory request.repository settings.binaryExtension⟩⟩

/-- A directory of its own can be made for every archive. -/
def HasRoom (t : FileTree) (scratch : Scratch) : Prop :=
  ∀ archive, ∃ place location, scratch archive = some place ∧ t.vacancy? place = some location

/-- What unpacking an archive in a directory of its own gives. -/
def Extracts (t : FileTree) (scratch : Scratch) (directory : Path) (archive : String)
    (result : Except UnpackFault (List Path)) : Prop :=
  ∃ place location, scratch archive = some place ∧ t.vacancy? place = some location ∧
    (Archive.unpackFile (t.put location .directory) (directory.join (.ofString archive))
      place).2 = result

/-- Manifests are written one after the other, and each of them can be. -/
inductive Writes (template : Bom.Template) (style : Bom.Style) (output : Path) :
    List Distribution → FileTree → FileTree → Prop
  | none {t} : Writes template style output [] t t
  | cons {d ds t u v}
      (h : t.writeWithDirectories (Bom.path output d) (template.fill style d).toUTF8 = (u, .ok ()))
      (rest : Writes template style output ds u v) : Writes template style output (d :: ds) t v

/-- A stage before the first archive has a failure to report, and no stage before it has. -/
inductive Unready (t : FileTree) (settings : Settings) (request : Request) : Failure → Prop
  | noArchiveDirectory (h : t.directory? request.archives = none) :
    Unready t settings request (.noArchiveDirectory request.archives)
  | noArchives {location} (hd : t.directory? request.archives = some location)
      (hnone : ∀ name, ¬Selection.IsSelected t location settings name) :
    Unready t settings request
      (.noArchives request.archives settings.archivePrefix settings.archiveExtension)
  | unreadableTemplate {archives path}
      (ha : Selection.Selects t settings request.archives archives)
      (hgiven : request.template = some path) (hread : t.readText? path = none) :
    Unready t settings request (.unreadableTemplate path)
  | noRepository {archives template}
      (ha : Selection.Selects t settings request.archives archives)
      (ht : Fills t request.template template) (hr : t.directory? request.repository = none) :
    Unready t settings request (.noRepository request.repository)
  | brokenRepository {archives template directory names}
      (ha : Selection.Selects t settings request.archives archives)
      (ht : Fills t request.template template)
      (hr : t.directory? request.repository = some directory)
      (hbad : t.MeetsBadLink directory names) :
    Unready t settings request .brokenRepository

/-- A stage has a failure to report, and no stage before it has. -/
inductive Fails (t : FileTree) (scratch : Scratch) (settings : Settings) (request : Request) :
    Failure → Prop
  | unready {failure} (h : Unready t settings request failure) :
    Fails t scratch settings request failure
  | archive {s before archive after fault} (hs : Ready t settings request s)
      (harchives : s.archives = before ++ archive :: after)
      (hbefore : ∀ a ∈ before, ∃ files, Extracts t scratch request.archives a (.ok files))
      (hfault : Extracts t scratch request.archives archive (.error fault)) :
    Fails t scratch settings request
      (.archive (request.archives.join (.ofString archive)) fault)
  | incomplete {s archive file} {files : String → List Path} (hs : Ready t settings request s)
      (hf : ∀ a ∈ s.archives, Extracts t scratch request.archives a (.ok (files a)))
      (ha : archive ∈ s.archives) (hfile : file ∈ files archive)
      (hmisses : s.mapping.misses file = true) :
    Fails t scratch settings request
      (.incomplete ((s.archives.filter fun a => (files a).any s.mapping.misses).map fun a =>
        ⟨a, (s.mapping.missed (files a)).map Path.nameText⟩))
  | unwrittenManifest {s before d after u v e} {files : String → List Path}
      (hs : Ready t settings request s)
      (hf : ∀ a ∈ s.archives, Extracts t scratch request.archives a (.ok (files a)))
      (hknown : ∀ a ∈ s.archives, ∀ file ∈ files a, s.mapping.misses file = false)
      (hdry : request.dryRun = false)
      (hds : s.archives.map (fun a => s.mapping.holding a (files a)) = before ++ d :: after)
      (hbefore : Writes s.template request.style request.output before t u)
      (hfails : u.writeWithDirectories (Bom.path request.output d)
        (s.template.fill request.style d).toUTF8 = (v, .error e)) :
    Fails t scratch settings request (.unwrittenManifest (Bom.path request.output d))

variable {t u : FileTree} {scratch : Scratch} {settings : Settings} {request : Request}
  {failure : Failure}

/-! ## Each stage -/

theorem archives_eq_ok_iff {directory : Path} {names : List String} :
    (Selection.archives t directory settings).outcome = .ok names ↔
      Selection.Selects t settings directory names := by
  constructor
  · intro h
    obtain ⟨location, hl, hnames⟩ := archives_ok h
    refine ⟨⟨location, hl, hnames ▸ .mergeSort _⟩, ?_⟩
    rintro rfl
    rw [Selection.archives_outcome hl, ← hnames] at h
    cases h
  · rintro ⟨⟨location, hl, hsorted⟩, hne⟩
    have hnames : Selection.archiveNames settings (Selection.fileNames t location) = names := by
      have hsame : (Selection.archiveNames settings (Selection.fileNames t location)).map id =
          names.map id :=
        SortedBy.map_key (fun _ _ => rfl) (.mergeSort _) hsorted (.refl _)
      simpa using hsame
    rw [Selection.archives_outcome hl, hnames]
    cases names with
    | nil => exact absurd rfl hne
    | cons first rest => rfl

theorem archives_eq_error_iff {directory : Path} {location : Location}
    (hl : t.directory? directory = some location) :
    (Selection.archives t directory settings).outcome = .error failure ↔
      (∀ name, ¬Selection.IsSelected t location settings name) ∧
        failure = .noArchives directory settings.archivePrefix settings.archiveExtension := by
  have hnone : Selection.archiveNames settings (Selection.fileNames t location) = [] ↔
      ∀ name, ¬Selection.IsSelected t location settings name := by
    simp only [List.eq_nil_iff_forall_not_mem, Selection.mem_archiveNames]
  rw [Selection.archives_outcome hl, ← hnone]
  cases Selection.archiveNames settings (Selection.fileNames t location) with
  | nil => simp [eq_comm]
  | cons first rest => simp

theorem template_eq_ok_iff {given : Option Path} {template : Bom.Template} :
    Generation.template t given = .ok template ↔ Fills t given template := by
  unfold Generation.template
  constructor
  · intro h
    split at h
    · cases h
      exact .builtin
    · split at h
      · rename_i hread
        cases h
        exact .given hread
      · cases h
  · rintro (_ | hread)
    · rfl
    · simp only [hread]

theorem template_eq_error_iff {given : Option Path} :
    Generation.template t given = .error failure ↔
      ∃ path, given = some path ∧ t.readText? path = none ∧ failure = .unreadableTemplate path := by
  unfold Generation.template
  cases given with
  | none => simp
  | some path => cases hread : t.readText? path <;> simp [hread, eq_comm]

theorem survey_eq_error_iff {root : Path} {extension : String} :
    (ArtifactIndex.survey t root extension).outcome = .error failure ↔
      t.directory? root = none ∧ failure = .noRepository root ∨
        ∃ directory names, t.directory? root = some directory ∧ t.MeetsBadLink directory names ∧
          failure = .brokenRepository := by
  cases hr : t.directory? root with
  | none =>
    unfold ArtifactIndex.survey
    simp [hr, eq_comm, throw, throwThe, MonadExceptOf.throw]
  | some directory =>
    rcases ArtifactIndex.survey_cases extension hr with ⟨hbad, hout⟩ | ⟨hnone, hout⟩
    · simp [hout, hbad, eq_comm]
    · simp [hout, hnone]

theorem setup_of_noArchiveDirectory (h : t.directory? request.archives = none) :
    (setup t settings request).outcome = .error (.noArchiveDirectory request.archives) := by
  unfold setup
  rw [if_pos (by simp [isDirectory, h])]
  rfl

theorem setup_outcome {location : Location} (h : t.directory? request.archives = some location) :
    (setup t settings request).outcome = do
      let archives ← (Selection.archives t request.archives settings).outcome
      let template ← Generation.template t request.template
      let index ← (ArtifactIndex.survey t request.repository settings.binaryExtension).outcome
      return ⟨archives, template, ⟨settings, index⟩⟩ := by
  unfold setup
  rw [if_neg (by simp [isDirectory, h])]
  simp only [Logged.outcome_bind, Logged.of]
  rfl

theorem setup_eq_ok_iff {s : Setup} :
    (setup t settings request).outcome = .ok s ↔ Ready t settings request s := by
  constructor
  · intro h
    cases hd : t.directory? request.archives with
    | none =>
      rw [setup_of_noArchiveDirectory hd] at h
      cases h
    | some location =>
      rw [setup_outcome hd] at h
      obtain ⟨archives, ha, h⟩ := bind_eq_ok_iff.1 h
      obtain ⟨template, ht, h⟩ := bind_eq_ok_iff.1 h
      obtain ⟨index, hi, h⟩ := bind_eq_ok_iff.1 h
      cases h
      obtain ⟨directory, hfound, hsound, rfl⟩ := ArtifactIndex.survey_ok hi
      exact ⟨archives_eq_ok_iff.1 ha, template_eq_ok_iff.1 ht, hfound, hsound⟩
  · rintro ⟨hselects, hfills, hfound, hsound⟩
    obtain ⟨location, hl, -⟩ := hselects.sorted
    exact setup_of_parts (by simp [isDirectory, hl]) (archives_eq_ok_iff.2 hselects)
      (template_eq_ok_iff.2 hfills) (ArtifactIndex.survey_eq_collected _ hfound hsound)

theorem setup_eq_error_iff :
    (setup t settings request).outcome = .error failure ↔ Unready t settings request failure := by
  constructor
  · intro h
    cases hd : t.directory? request.archives with
    | none =>
      rw [setup_of_noArchiveDirectory hd] at h
      cases h
      exact .noArchiveDirectory hd
    | some location =>
      rw [setup_outcome hd] at h
      rcases bind_eq_error_iff.1 h with h | ⟨archives, ha, h⟩
      · obtain ⟨hnone, rfl⟩ := (archives_eq_error_iff hd).1 h
        exact .noArchives hd hnone
      have hselects := archives_eq_ok_iff.1 ha
      rcases bind_eq_error_iff.1 h with h | ⟨template, ht, h⟩
      · obtain ⟨path, hgiven, hread, rfl⟩ := template_eq_error_iff.1 h
        exact .unreadableTemplate hselects hgiven hread
      have hfills := template_eq_ok_iff.1 ht
      rcases bind_eq_error_iff.1 h with h | ⟨index, -, h⟩
      · rcases survey_eq_error_iff.1 h with ⟨hr, rfl⟩ | ⟨directory, names, hr, hbad, rfl⟩
        · exact .noRepository hselects hfills hr
        · exact .brokenRepository hselects hfills hr hbad
      · cases h
  · intro h
    have hafter {archives : List String}
        (ha : Selection.Selects t settings request.archives archives) (hrest : (do
          let template ← Generation.template t request.template
          let index ← (ArtifactIndex.survey t request.repository settings.binaryExtension).outcome
          return (⟨archives, template, ⟨settings, index⟩⟩ : Setup)) = .error failure) :
        (setup t settings request).outcome = .error failure := by
      obtain ⟨location, hl, -⟩ := ha.sorted
      rw [setup_outcome hl, archives_eq_ok_iff.2 ha]
      exact hrest
    cases h with
    | noArchiveDirectory hd => exact setup_of_noArchiveDirectory hd
    | noArchives hd hnone =>
      rw [setup_outcome hd, (archives_eq_error_iff hd).2 ⟨hnone, rfl⟩]
      rfl
    | unreadableTemplate ha hgiven hread =>
      refine hafter ha (bind_eq_error_iff.2 (.inl ?_))
      exact template_eq_error_iff.2 ⟨_, hgiven, hread, rfl⟩
    | noRepository ha ht hr =>
      refine hafter ha (bind_eq_error_iff.2 (.inr ⟨_, template_eq_ok_iff.2 ht, ?_⟩))
      exact bind_eq_error_iff.2 (.inl (survey_eq_error_iff.2 (.inl ⟨hr, rfl⟩)))
    | brokenRepository ha ht hr hbad =>
      refine hafter ha (bind_eq_error_iff.2 (.inr ⟨_, template_eq_ok_iff.2 ht, ?_⟩))
      exact bind_eq_error_iff.2 (.inl (survey_eq_error_iff.2 (.inr ⟨_, _, hr, hbad, rfl⟩)))

/-! ## The archives -/

section Archives

variable {m : Mapping} {archive : String} {xs : List String}

theorem Extracts.contents {directory : Path} {result : Except UnpackFault (List Path)}
    (h : Extracts t scratch directory archive result) :
    (contents t (scratch archive) (directory.join (.ofString archive))).2 =
      result.mapError (.archive (directory.join (.ofString archive))) := by
  obtain ⟨place, location, hplace, hvacant, rfl⟩ := h
  unfold Generation.contents
  simp only [hplace, Option.bind_some, withTemporary?, hvacant, Option.map_some]

theorem HasRoom.extracts (h : HasRoom t scratch) (directory : Path) (archive : String) :
    ∃ result, Extracts t scratch directory archive result := by
  obtain ⟨place, location, hplace, hvacant⟩ := h archive
  exact ⟨_, place, location, hplace, hvacant, rfl⟩

theorem distribution_eq_ok_iff (hroom : HasRoom t scratch) {directory : Path} :
    (∃ d, (distribution scratch m directory t archive).2.outcome = .ok d) ↔
      ∃ files, Extracts t scratch directory archive (.ok files) := by
  rw [distribution_outcome]
  constructor
  · rintro ⟨d, h⟩
    obtain ⟨result, hresult⟩ := hroom.extracts directory archive
    rw [hresult.contents] at h
    cases result with
    | error fault => cases h
    | ok files => exact ⟨files, hresult⟩
  · rintro ⟨files, hfiles⟩
    rw [hfiles.contents]
    exact ⟨_, rfl⟩

theorem distribution_eq_error_iff (hroom : HasRoom t scratch) {directory : Path} :
    (distribution scratch m directory t archive).2.outcome = .error failure ↔
      ∃ fault, Extracts t scratch directory archive (.error fault) ∧
        failure = .archive (directory.join (.ofString archive)) fault := by
  rw [distribution_outcome]
  constructor
  · intro h
    obtain ⟨result, hresult⟩ := hroom.extracts directory archive
    rw [hresult.contents] at h
    cases result with
    | error fault =>
      cases h
      exact ⟨fault, hresult, rfl⟩
    | ok files => cases h
  · rintro ⟨fault, hfault, rfl⟩
    rw [hfault.contents]
    rfl

theorem distributions_eq_ok_iff (hroom : HasRoom t scratch) {directory : Path} :
    (∃ ds, (inTurn (distribution scratch m directory) xs t).2.outcome = .ok ds) ↔
      ∀ a ∈ xs, ∃ files, Extracts t scratch directory a (.ok files) := by
  simp only [inTurn_ok_iff fun a _ => distribution_tree m directory t a,
    ← distribution_eq_ok_iff (m := m) hroom]
  constructor
  · rintro ⟨ds, hds⟩ a ha
    induction hds with
    | nil => cases ha
    | cons hd _ ih =>
      rcases List.mem_cons.1 ha with rfl | ha
      · exact ⟨_, hd⟩
      · exact ih ha
  · intro h
    choose! d hd using h
    exact ⟨xs.map d, by rw [List.forall₂_map_right_iff, List.forall₂_same]; exact hd⟩

/-- Of the archives that cannot be unpacked, the first is reported. -/
theorem distributions_eq_error_iff (hroom : HasRoom t scratch) {directory : Path} :
    (inTurn (distribution scratch m directory) xs t).2.outcome = .error failure ↔
      ∃ before archive after fault, xs = before ++ archive :: after ∧
        (∀ a ∈ before, ∃ files, Extracts t scratch directory a (.ok files)) ∧
        Extracts t scratch directory archive (.error fault) ∧
        failure = .archive (directory.join (.ofString archive)) fault := by
  have htree (before : List String) :
      (inTurn (distribution scratch m directory) before t).1 = t := by
    refine inTurn_preserves (P := fun u => u = t) ?_ rfl
    rintro u a - rfl
    exact distribution_tree m directory u a
  simp only [inTurn_error_iff, htree, distributions_eq_ok_iff hroom,
    distribution_eq_error_iff hroom]
  constructor
  · rintro ⟨before, archive, after, hxs, hbefore, fault, hfault, rfl⟩
    exact ⟨before, archive, after, fault, hxs, hbefore, hfault, rfl⟩
  · rintro ⟨before, archive, after, fault, hxs, hbefore, hfault, rfl⟩
    exact ⟨before, archive, after, hxs, hbefore, fault, hfault, rfl⟩

end Archives

/-! ## The manifests -/

section Manifests

variable {template : Bom.Template} {style : Bom.Style} {output : Path} {d : Distribution}
  {ds : List Distribution}

theorem writeManifest_of_ok
    (h : t.writeWithDirectories (Bom.path output d) (template.fill style d).toUTF8 =
      (u, .ok ())) :
    (writeManifest template style output t d).1 = u ∧
      (writeManifest template style output t d).2.outcome = .ok (Bom.path output d) := by
  unfold writeManifest
  dsimp only
  rw [h]
  exact ⟨rfl, rfl⟩

theorem writeManifest_of_error {e : FileError}
    (h : t.writeWithDirectories (Bom.path output d) (template.fill style d).toUTF8 =
      (u, .error e)) :
    (writeManifest template style output t d).2.outcome =
      .error (.unwrittenManifest (Bom.path output d)) := by
  unfold writeManifest
  dsimp only
  rw [h]
  rfl

theorem writes_iff :
    Writes template style output ds t u ↔
      (inTurn (writeManifest template style output) ds t).1 = u ∧
        ∃ paths, (inTurn (writeManifest template style output) ds t).2.outcome = .ok paths := by
  constructor
  · intro h
    induction h with
    | none => exact ⟨rfl, _, rfl⟩
    | cons h _ ih =>
      obtain ⟨rfl, hout⟩ := writeManifest_of_ok h
      obtain ⟨htree, paths, hpaths⟩ := ih
      rw [(inTurn_cons_ok hout).1, (inTurn_cons_ok hout).2, hpaths]
      exact ⟨htree, _, rfl⟩
  · induction ds generalizing t with
    | nil =>
      rintro ⟨rfl, -⟩
      exact .none
    | cons d rest ih =>
      rintro ⟨htree, paths, hpaths⟩
      cases hw : t.writeWithDirectories (Bom.path output d) (template.fill style d).toUTF8 with
      | mk v outcome =>
        cases outcome with
        | error e =>
          rw [(inTurn_cons_error (writeManifest_of_error hw)).2] at hpaths
          cases hpaths
        | ok _ =>
          obtain ⟨rfl, hout⟩ := writeManifest_of_ok hw
          rw [(inTurn_cons_ok hout).1] at htree
          rw [(inTurn_cons_ok hout).2] at hpaths
          obtain ⟨others, hothers, -⟩ := map_eq_ok_iff.1 hpaths
          exact .cons hw (ih ⟨htree, others, hothers⟩)

/-- Of the manifests that cannot be written, the first is reported. -/
theorem manifests_eq_error_iff :
    (inTurn (writeManifest template style output) ds t).2.outcome = .error failure ↔
      ∃ before d after u v e, ds = before ++ d :: after ∧
        Writes template style output before t u ∧
        u.writeWithDirectories (Bom.path output d) (template.fill style d).toUTF8 = (v, .error e) ∧
        failure = .unwrittenManifest (Bom.path output d) := by
  rw [inTurn_error_iff]
  constructor
  · rintro ⟨before, d, after, hds, hbefore, h⟩
    obtain rfl := writeManifest_error h
    refine ⟨before, d, after, (inTurn (writeManifest template style output) before t).1, ?_⟩
    cases hw : (inTurn (writeManifest template style output) before t).1.writeWithDirectories
        (Bom.path output d) (template.fill style d).toUTF8 with
    | mk v outcome =>
      cases outcome with
      | error e => exact ⟨v, e, hds, writes_iff.2 ⟨rfl, hbefore⟩, rfl, rfl⟩
      | ok _ =>
        rw [(writeManifest_of_ok hw).2] at h
        cases h
  · rintro ⟨before, d, after, u, v, e, hds, hbefore, hw, rfl⟩
    obtain ⟨rfl, hpaths⟩ := writes_iff.1 hbefore
    exact ⟨before, d, after, hds, hpaths, writeManifest_of_error hw⟩

end Manifests

/-! ## The whole run -/

theorem runIn_eq_error_iff :
    (runIn t scratch settings request).2.outcome = .error failure ↔
      (plan t scratch settings request).2.outcome = .error failure ∨
        ∃ p, (plan t scratch settings request).2.outcome = .ok p ∧
          (execute t request p).2.outcome = .error failure := by
  cases hp : (plan t scratch settings request).2.outcome with
  | error other => simp [(runIn_of_plan_error hp).2]
  | ok p => simp [(runIn_of_plan_ok hp).2]

theorem plan_eq_error_iff :
    (plan t scratch settings request).2.outcome = .error failure ↔
      (setup t settings request).outcome = .error failure ∨
        ∃ s, (setup t settings request).outcome = .ok s ∧
          ((inTurn (distribution scratch s.mapping request.archives) s.archives t).2.outcome >>=
            gate s.template) = .error failure := by
  cases hs : (setup t settings request).outcome with
  | error other =>
    unfold plan
    simp [hs]
  | ok s => simp [plan_outcome hs]

/-- Where every archive can be unpacked, the plan is that of all their files, or the failure of the
gate. -/
theorem plan_of_extracts {s : Setup} {files : String → List Path}
    (hs : Ready t settings request s)
    (hf : ∀ a ∈ s.archives, Extracts t scratch request.archives a (.ok (files a))) :
    (plan t scratch settings request).2.outcome =
      gate s.template (s.archives.map fun a => s.mapping.holding a (files a)) :=
  plan_of_contents (setup_eq_ok_iff.2 hs) fun a ha => (hf a ha).contents

theorem gate_of_known {m : Mapping} {template : Bom.Template} {archives : List String}
    {files : String → List Path}
    (h : ∀ a ∈ archives, ∀ file ∈ files a, m.misses file = false) :
    gate template (archives.map fun a => m.holding a (files a)) =
      .ok ⟨template, archives.map fun a => m.holding a (files a)⟩ := by
  unfold gate
  rw [Distribution.shortfalls_eq_nil.2]
  simpa [Mapping.holding_unknown_eq_nil] using h

/-- A stage that has a failure to report, where none before it has, is the one that reports. -/
theorem outcome_of_fails (hroom : HasRoom t scratch)
    (h : Fails t scratch settings request failure) :
    (runIn t scratch settings request).2.outcome = .error failure := by
  rw [runIn_eq_error_iff]
  cases h with
  | unready h => exact .inl (plan_eq_error_iff.2 (.inl (setup_eq_error_iff.2 h)))
  | archive hs harchives hbefore hfault =>
    refine .inl (plan_eq_error_iff.2 (.inr ⟨_, setup_eq_ok_iff.2 hs, bind_eq_error_iff.2 ?_⟩))
    left
    exact (distributions_eq_error_iff hroom).2 ⟨_, _, _, _, harchives, hbefore, hfault, rfl⟩
  | incomplete hs hf ha hfile hmisses =>
    left
    rw [plan_of_extracts hs hf, gate_error_iff, shortfalls_holding]
    exact ⟨rfl, exists_missed_iff.2 ⟨_, ha, _, hfile, hmisses⟩⟩
  | unwrittenManifest hs hf hknown hdry hds hbefore hfails =>
    right
    refine ⟨_, (plan_of_extracts hs hf).trans (gate_of_known hknown), ?_⟩
    rw [(execute_real hdry).2, map_eq_error_iff]
    exact manifests_eq_error_iff.2 ⟨_, _, _, _, _, _, hds, hbefore, hfails, rfl⟩

/-- A failure that is reported is that of a stage, and no stage before it has one. -/
theorem fails_of_outcome (hroom : HasRoom t scratch)
    (h : (runIn t scratch settings request).2.outcome = .error failure) :
    Fails t scratch settings request failure := by
  rcases runIn_eq_error_iff.1 h with hplan | ⟨p, hp, hexecute⟩
  · rcases plan_eq_error_iff.1 hplan with hunready | ⟨s, hs, hwork⟩
    · exact .unready (setup_eq_error_iff.1 hunready)
    have hready := setup_eq_ok_iff.1 hs
    rcases bind_eq_error_iff.1 hwork with herror | ⟨ds, hds, -⟩
    · obtain ⟨before, archive, after, fault, harchives, hbefore, hfault, rfl⟩ :=
        (distributions_eq_error_iff hroom).1 herror
      exact .archive hready harchives hbefore hfault
    · have hall := (distributions_eq_ok_iff hroom).1 ⟨ds, hds⟩
      choose! files hf using hall
      rw [plan_of_extracts hready hf] at hplan
      obtain ⟨rfl, hmissed⟩ := gate_error_iff.1 hplan
      obtain ⟨archive, ha, file, hfile, hmisses⟩ := exists_missed_iff.1 hmissed
      rw [shortfalls_holding]
      exact .incomplete hready hf ha hfile hmisses
  · obtain ⟨s, hs, -, -, hwork⟩ := plan_ok hp
    have hready := setup_eq_ok_iff.1 hs
    have hall := (distributions_eq_ok_iff hroom).1
      ⟨_, (inTurn_ok_iff fun a _ => distribution_tree s.mapping request.archives t a).2 hwork⟩
    choose! files hf using hall
    rw [plan_of_extracts hready hf] at hp
    obtain ⟨rfl, hcomplete⟩ := gate_ok hp
    have hknown : ∀ a ∈ s.archives, ∀ file ∈ files a, s.mapping.misses file = false :=
      fun a ha => Mapping.holding_unknown_eq_nil.1
        (hcomplete (s.mapping.holding a (files a)) (List.mem_map_of_mem ha))
    obtain ⟨hdry, -⟩ := execute_error hexecute
    rw [(execute_real hdry).2, map_eq_error_iff] at hexecute
    obtain ⟨before, d, after, u, v, e, hds, hbefore, hw, rfl⟩ :=
      manifests_eq_error_iff.1 hexecute
    exact .unwrittenManifest hready hf hknown hdry hds hbefore hw

/-- Of all that stands against a run, the first stage that has something to report is reported, and
a run succeeds where no stage has anything. -/
theorem runIn_reports_first (hroom : HasRoom t scratch) :
    (∀ failure, (runIn t scratch settings request).2.outcome = .error failure ↔
        Fails t scratch settings request failure) ∧
      ((∃ summary, (runIn t scratch settings request).2.outcome = .ok summary) ↔
        ∀ failure, ¬Fails t scratch settings request failure) := by
  have hiff (failure : Failure) : (runIn t scratch settings request).2.outcome = .error failure ↔
      Fails t scratch settings request failure :=
    ⟨fails_of_outcome hroom, outcome_of_fails hroom⟩
  refine ⟨hiff, ?_⟩
  simp only [← hiff]
  cases (runIn t scratch settings request).2.outcome with
  | error failure => simp
  | ok summary => simp

/-- The binary of the first archive is unknown, the second archive leads out of its directory. -/
def troubled : FileTree :=
  treeOf [("apache-tomee-plus-8.0.6.zip", archiveOf ["lib/lost.jar"]),
    ("apache-tomee-webprofile-8.0.6.zip", archiveOf ["../ecj-3.jar"])]

theorem troubled_ready : ∃ s, Ready troubled {} plainRequest s ∧
    s.archives = ["apache-tomee-plus-8.0.6.zip", "apache-tomee-webprofile-8.0.6.zip"] := by
  have harchives : (Selection.archives troubled plainRequest.archives {}).outcome =
      .ok ["apache-tomee-plus-8.0.6.zip", "apache-tomee-webprofile-8.0.6.zip"] :=
    archives_of_selected (by decide +kernel) (by decide) (by decide)
  obtain ⟨index, hindex⟩ := exists_of_isOk (x := (ArtifactIndex.survey troubled
    plainRequest.repository "jar").outcome) (by decide +kernel)
  exact ⟨_, setup_eq_ok_iff.1 (setup_of_parts (by decide +kernel) harchives rfl hindex), rfl⟩

theorem troubled_reports_archive :
    HasRoom troubled (fun _ => some troubled.unusedPath) ∧
      (run troubled true {} plainRequest).2.outcome = .error
        (.archive (.ofString "dists/apache-tomee-webprofile-8.0.6.zip")
          (.escape "../ecj-3.jar")) := by
  have hvacant : troubled.vacancy? troubled.unusedPath = some [Text.bytes "unpacked100000"] := by
    decide +kernel
  have hroom : HasRoom troubled fun _ => some troubled.unusedPath :=
    fun _ => ⟨_, _, rfl, hvacant⟩
  have hlost : Extracts troubled (fun _ => some troubled.unusedPath) plainRequest.archives
      "apache-tomee-plus-8.0.6.zip" (.ok [.ofString "lib/lost.jar"]) :=
    ⟨_, _, rfl, hvacant, by decide +kernel⟩
  have hescape : Extracts troubled (fun _ => some troubled.unusedPath) plainRequest.archives
      "apache-tomee-webprofile-8.0.6.zip" (.error (.escape "../ecj-3.jar")) :=
    ⟨_, _, rfl, hvacant, by decide +kernel⟩
  obtain ⟨s, hs, harchives⟩ := troubled_ready
  have hfirst : ∀ a ∈ ["apache-tomee-plus-8.0.6.zip"], ∃ files, Extracts troubled
      (fun _ => some troubled.unusedPath) plainRequest.archives a (.ok files) := by
    intro a ha
    rw [List.mem_singleton.1 ha]
    exact ⟨_, hlost⟩
  exact ⟨hroom, ((runIn_reports_first hroom).1 _).2 (.archive hs harchives hfirst hescape)⟩

end Generation
end BillOfMaterials
