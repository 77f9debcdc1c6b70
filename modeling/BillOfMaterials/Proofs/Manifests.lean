import BillOfMaterials.Proofs.Footprint
import BillOfMaterials.Proofs.Places
import BillOfMaterials.Proofs.Report
import Mathlib.Data.List.Nodup

/-!
# The manifests of a batch

Manifests are written one after the other, and a later one takes the place of an earlier one that
lies at the same place. So after the batch a place holds the text of the last distribution whose
path leads there. That each distribution finds its own text is therefore not a property of every
batch: it fails exactly where two archives have one short name, or where paths of different archives
meet and the texts differ. Two versions of one archive side by side are such a batch.
-/
namespace BillOfMaterials.Generation

variable {t u : FileTree} {scratch : Scratch} {settings : Settings} {request : Request}
  {template : Bom.Template} {style : Bom.Style} {output : Path}

/-- The distributions whose manifests lie at a location. -/
def lyingAt (u : FileTree) (output : Path) (loc : Location) (ds : List Distribution) :
    List Distribution :=
  ds.filter fun d => decide (u.locate true (Bom.path output d) = .ok (.present loc))

theorem mem_lyingAt {loc : Location} {ds : List Distribution} {d : Distribution} :
    d ∈ lyingAt u output loc ds ↔
      d ∈ ds ∧ u.locate true (Bom.path output d) = .ok (.present loc) := by
  simp [lyingAt]

theorem lyingAt_cons_pos {loc : Location} {d : Distribution} {ds : List Distribution}
    (h : u.locate true (Bom.path output d) = .ok (.present loc)) :
    lyingAt u output loc (d :: ds) = d :: lyingAt u output loc ds := by
  unfold lyingAt
  rw [List.filter_cons_of_pos (by simpa using h)]

theorem lyingAt_cons_neg {loc : Location} {d : Distribution} {ds : List Distribution}
    (h : u.locate true (Bom.path output d) ≠ .ok (.present loc)) :
    lyingAt u output loc (d :: ds) = lyingAt u output loc ds := by
  unfold lyingAt
  rw [List.filter_cons_of_neg (by simpa using h)]

/-- What writing manifests in turn makes of a tree. -/
structure Written (t u : FileTree) (template : Bom.Template) (style : Bom.Style) (output : Path)
    (ds : List Distribution) : Prop where
  grows : t.Grows u
  located : ∀ d ∈ ds, ∃ loc, u.locate true (Bom.path output d) = .ok (.present loc)
  last : ∀ loc d, (lyingAt u output loc ds).getLast? = some d →
    u.at? loc = some (.file (template.fill style d).toUTF8)
  untouched : ∀ loc e, lyingAt u output loc ds = [] → t.at? loc = some e → u.at? loc = some e

/-- One more manifest, written before the others. -/
theorem Written.cons {t₁ : FileTree} {d : Distribution} {ds : List Distribution} {first : Location}
    (hw : t.Wrote t₁ (Bom.path output d) (template.fill style d).toUTF8 first)
    (h : Written t₁ u template style output ds) : Written t u template style output (d :: ds) := by
  have hfirst : u.locate true (Bom.path output d) = .ok (.present first) :=
    FileTree.locate_grows hw.located h.grows
  refine ⟨hw.keeps.grows.trans h.grows, ?_, ?_, ?_⟩
  · rintro e he
    rcases List.mem_cons.1 he with rfl | he
    · exact ⟨first, hfirst⟩
    · exact h.located e he
  · intro loc last hlast
    by_cases hd : u.locate true (Bom.path output d) = .ok (.present loc)
    · have hloc : first = loc := by
        rw [hfirst] at hd
        cases hd
        rfl
      subst hloc
      rw [lyingAt_cons_pos hd, List.getLast?_cons] at hlast
      cases hl : (lyingAt u output first ds).getLast? with
      | none =>
        rw [hl] at hlast
        cases hlast
        exact h.untouched first _ (List.getLast?_eq_none_iff.1 hl) hw.content
      | some later =>
        rw [hl] at hlast
        cases hlast
        exact h.last first later hl
    · rw [lyingAt_cons_neg hd] at hlast
      exact h.last loc last hlast
  · intro loc e hnone he
    by_cases hd : u.locate true (Bom.path output d) = .ok (.present loc)
    · rw [lyingAt_cons_pos hd] at hnone
      cases hnone
    · rw [lyingAt_cons_neg hd] at hnone
      have hne : loc ≠ first := by
        rintro rfl
        exact hd hfirst
      exact h.untouched loc e hnone (hw.keeps.entry loc e hne he)

/-- A manifest is written, or it is not and the run ends. Either way nothing is touched but its
place and the way to it. -/
theorem writeManifest_cases (template : Bom.Template) (style : Bom.Style) (output : Path)
    (t : FileTree) (d : Distribution) :
    ((writeManifest template style output t d).2.outcome = .ok (Bom.path output d) ∧
      (∃ loc, t.Wrote (writeManifest template style output t d).1 (Bom.path output d)
        (template.fill style d).toUTF8 loc) ∧
      t.Touched [Bom.path output d] [Bom.path output d]
        (writeManifest template style output t d).1) ∨
    ((writeManifest template style output t d).2.outcome =
        .error (.unwrittenManifest (Bom.path output d)) ∧
      t.Touched [] [Bom.path output d] (writeManifest template style output t d).1) := by
  unfold writeManifest
  dsimp only
  cases hw : t.writeWithDirectories (Bom.path output d) (template.fill style d).toUTF8 with
  | mk u outcome =>
    cases outcome with
    | ok _ =>
      exact .inl ⟨rfl, FileTree.wrote_of_writeWithDirectories hw, .of_writeWithDirectories hw⟩
    | error e => exact .inr ⟨rfl, .of_failure hw⟩

theorem Written.none {ways : List Path} (h : t.Touched [] ways u) :
    Written t u template style output [] := by
  refine ⟨h.grows, nofun, nofun, fun loc e _ he => ?_⟩
  rcases h.outside loc nofun with hsame | ⟨hnone, -⟩
  · rw [hsame, he]
  · rw [he] at hnone
    cases hnone

/-- Manifests are written in turn up to the first one that cannot be written. The later ones are not
even tried. -/
theorem inTurn_writeManifest (template : Bom.Template) (style : Bom.Style) (output : Path)
    (ds : List Distribution) (t : FileTree) :
    ∃ before after, ds = before ++ after ∧
      Written t (inTurn (writeManifest template style output) ds t).1 template style output
        before ∧
      t.Touched (before.map (Bom.path output))
        ((before ++ after.take 1).map (Bom.path output))
        (inTurn (writeManifest template style output) ds t).1 ∧
      (inTurn (writeManifest template style output) ds t).2.outcome =
        match after with
        | [] => .ok (before.map (Bom.path output))
        | d :: _ => .error (.unwrittenManifest (Bom.path output d)) := by
  induction ds generalizing t with
  | nil =>
    have hnone : t.Touched [] [] t := .refl t
    exact ⟨[], [], rfl, .none hnone, hnone, rfl⟩
  | cons d rest ih =>
    rcases writeManifest_cases template style output t d with
      ⟨ho, ⟨loc, hw⟩, htouched⟩ | ⟨ho, htouched⟩
    · obtain ⟨before, after, rfl, hwritten, hbatch, hout⟩ :=
        ih (writeManifest template style output t d).1
      rw [(inTurn_cons_ok ho).1, (inTurn_cons_ok ho).2, hout]
      refine ⟨d :: before, after, rfl, .cons hw hwritten, htouched.trans hbatch, ?_⟩
      cases after <;> rfl
    · rw [(inTurn_cons_error ho).1, (inTurn_cons_error ho).2]
      exact ⟨[], d :: rest, rfl, .none htouched, htouched, rfl⟩

/-- A manifest is read as the text of the last distribution whose manifest lies at the same
place. -/
theorem Written.read {ds : List Distribution} {d : Distribution}
    (h : Written t u template style output ds) (hd : d ∈ ds) :
    ∃ last ∈ ds, u.locate true (Bom.path output last) = u.locate true (Bom.path output d) ∧
      u.read (Bom.path output d) = .ok (template.fill style last).toUTF8 := by
  obtain ⟨loc, hl⟩ := h.located d hd
  have hne : lyingAt u output loc ds ≠ [] := List.ne_nil_of_mem (mem_lyingAt.2 ⟨hd, hl⟩)
  obtain ⟨last, hlast⟩ := Option.ne_none_iff_exists'.1 (mt List.getLast?_eq_none_iff.1 hne)
  obtain ⟨hin, hll⟩ := mem_lyingAt.1 (List.mem_of_getLast? hlast)
  exact ⟨last, hin, hll.trans hl.symm, FileTree.read_of_locate hl (h.last loc last hlast)⟩

/-- Every distribution finds its own text exactly if manifests that lie at one place have one
text. -/
theorem Written.read_all_iff {ds : List Distribution}
    (h : Written t u template style output ds) :
    (∀ d ∈ ds, u.read (Bom.path output d) = .ok (template.fill style d).toUTF8) ↔
      ∀ d ∈ ds, ∀ e ∈ ds,
        u.locate true (Bom.path output d) = u.locate true (Bom.path output e) →
          template.fill style d = template.fill style e := by
  constructor
  · intro hall d hd e he hsame
    have hread : u.read (Bom.path output d) = u.read (Bom.path output e) := by
      unfold FileTree.read
      rw [hsame]
    rw [hall d hd, hall e he] at hread
    exact String.toByteArray_inj.1 (Except.ok.inj hread)
  · intro hsame d hd
    obtain ⟨last, hin, hl, hread⟩ := h.read hd
    rw [hread, hsame last hin d hd hl]

/-! ## The batch of a run -/

/-- What a batch leaves that succeeds, and how it ends otherwise. -/
theorem execute_cases (t : FileTree) (p : Plan) (hd : request.dryRun = false) :
    ∃ before after, p.distributions = before ++ after ∧
      Written t (execute t request p).1 p.template request.style request.output before ∧
      t.Touched (before.map (Bom.path request.output))
        ((before ++ after.take 1).map (Bom.path request.output)) (execute t request p).1 ∧
      (execute t request p).2.outcome =
        match after with
        | [] => .ok ⟨p.distributions, p.distributions.map (Bom.path request.output), false⟩
        | d :: _ => .error (.unwrittenManifest (Bom.path request.output d)) := by
  obtain ⟨htree, hout⟩ := execute_real (t := t) (p := p) hd
  obtain ⟨before, after, hds, hwritten, htouched, hpaths⟩ :=
    inTurn_writeManifest p.template request.style request.output p.distributions t
  rw [← htree] at hwritten htouched
  refine ⟨before, after, hds, hwritten, htouched, ?_⟩
  rw [hout, hpaths]
  cases after with
  | nil =>
    rw [hds, List.append_nil]
    rfl
  | cons d rest => rfl

theorem execute_ok {p : Plan} {summary : Summary} (hd : request.dryRun = false)
    (h : (execute t request p).2.outcome = .ok summary) :
    summary.distributions = p.distributions ∧
      summary.written = p.distributions.map (Bom.path request.output) ∧
      Written t (execute t request p).1 p.template request.style request.output
        p.distributions := by
  obtain ⟨before, after, hds, hwritten, -, hout⟩ := execute_cases t p hd
  rw [h] at hout
  cases after with
  | nil =>
    cases hout
    rw [hds, List.append_nil]
    exact ⟨rfl, rfl, hwritten⟩
  | cons d rest => cases hout

theorem short_names {namePrefix : String} {archives : List String} {ds : List Distribution}
    (hname : List.Forall₂ (fun archive d => d.name = DistributionName.ofArchive archive namePrefix)
      archives ds)
    (hplain : ∀ archive ∈ archives, Path.slash ∉ Text.bytes archive) :
    ds.map (·.name.short) =
        archives.map (fun archive => (DistributionName.ofArchive archive namePrefix).short) ∧
      ∀ d ∈ ds, Path.slash ∉ Text.bytes d.name.short := by
  induction hname with
  | nil => exact ⟨rfl, nofun⟩
  | @cons archive d archives ds hn _ ih =>
    obtain ⟨hmap, hall⟩ := ih fun x hx => hplain x (List.mem_cons_of_mem _ hx)
    constructor
    · rw [List.map_cons, List.map_cons, hmap, hn]
    · intro e he
      rcases List.mem_cons.1 he with rfl | he
      · rw [hn]
        exact DistributionName.slash_not_mem_short _ (hplain archive List.mem_cons_self)
      · exact hall e he

/-- The short names in a planned batch are those of the archives, and hold no separator. -/
theorem plan_names {s : Setup} {ds : List Distribution} (ht : t.NamesArePlain)
    (hs : (setup t settings request).outcome = .ok s)
    (hwork : List.Forall₂ (fun archive d =>
      (distribution scratch s.mapping request.archives t archive).2.outcome = .ok d)
      s.archives ds) :
    ds.map (·.name.short) =
        s.archives.map (fun archive =>
          (DistributionName.ofArchive archive settings.namePrefix).short) ∧
      ∀ d ∈ ds, Path.slash ∉ Text.bytes d.name.short := by
  obtain ⟨hsettings, hselect, -⟩ := setup_ok hs
  obtain ⟨location, -, hselected⟩ := archives_ok hselect
  refine short_names (hwork.imp ?_) ?_
  · intro archive d ho
    obtain ⟨files, -, rfl⟩ := distribution_ok ho
    rw [← hsettings]
    rfl
  · intro archive ha
    rw [hselected] at ha
    exact Selection.slash_not_mem_archive ht ha

theorem nodup_paths_iff {ds : List Distribution}
    (h : ∀ d ∈ ds, Path.slash ∉ Text.bytes d.name.short) :
    (ds.map (Bom.path output)).Nodup ↔ (ds.map (·.name.short)).Nodup := by
  unfold List.Nodup
  rw [List.pairwise_map, List.pairwise_map]
  apply List.Pairwise.iff_of_mem
  intro d e hd he
  rw [Ne, Ne, Bom.path_eq_iff (h d hd) (h e he)]

theorem runIn_written {summary : Summary} (ht : t.NamesArePlain) (hd : request.dryRun = false)
    (h : (runIn t scratch settings request).2.outcome = .ok summary) :
    ∃ s, (setup t settings request).outcome = .ok s ∧
      summary.written = summary.distributions.map (Bom.path request.output) ∧
      summary.distributions.map (·.name.short) = s.archives.map (fun archive =>
        (DistributionName.ofArchive archive settings.namePrefix).short) ∧
      (∀ d ∈ summary.distributions, Path.slash ∉ Text.bytes d.name.short) ∧
      Written t (runIn t scratch settings request).1 s.template request.style request.output
        summary.distributions := by
  obtain ⟨p, hp, hx⟩ := runIn_ok h
  obtain ⟨s, hs, htemplate, -, hwork⟩ := plan_ok hp
  obtain ⟨hds, hpaths, hwritten⟩ := execute_ok hd hx
  obtain ⟨hnames, hplain⟩ := plan_names ht hs hwork
  rw [htemplate] at hwritten
  rw [(runIn_of_plan_ok hp).1, hds]
  exact ⟨s, hs, hpaths, hnames, hplain, hwritten⟩

/-- After a successful run, the manifests have different paths and each distribution finds its own
text in its manifest, exactly if no two archives have one short name and manifests that lie at one
place have one text. -/
theorem manifests_distinct_iff {summary : Summary} (ht : t.NamesArePlain)
    (hd : request.dryRun = false)
    (h : (runIn t scratch settings request).2.outcome = .ok summary) :
    ∃ s, (setup t settings request).outcome = .ok s ∧
      ((summary.written.Nodup ∧
          List.Forall₂ (fun path d => (runIn t scratch settings request).1.read path =
            .ok (s.template.fill request.style d).toUTF8) summary.written summary.distributions) ↔
        ((s.archives.map fun archive =>
            (DistributionName.ofArchive archive settings.namePrefix).short).Nodup ∧
          ∀ d ∈ summary.distributions, ∀ e ∈ summary.distributions,
            (runIn t scratch settings request).1.locate true (Bom.path request.output d) =
                (runIn t scratch settings request).1.locate true (Bom.path request.output e) →
              s.template.fill request.style d = s.template.fill request.style e)) := by
  obtain ⟨s, hs, hpaths, hnames, hplain, hwritten⟩ := runIn_written ht hd h
  refine ⟨s, hs, ?_⟩
  rw [hpaths, ← hnames, nodup_paths_iff hplain, List.forall₂_map_left_iff, List.forall₂_same,
    hwritten.read_all_iff]

/-- Two versions of one archive with different binaries, and a template that shows nothing else. -/
def clashing : FileTree where
  entries := (treeOf [("apache-tomee-plus-8.0.6.zip", archiveOf ["ecj-3.jar"]),
      ("apache-tomee-plus-8.0.7.zip", archiveOf ["catalina.jar"])]).entries ++
    [([Text.bytes "template.xml"], .file Bom.dependenciesMarker.toUTF8)]

def clashingRequest : Request :=
  { plainRequest with template := some (.ofString "template.xml"), style := .managed }

def clashingTemplate : Bom.Template := ⟨Bom.dependenciesMarker⟩

theorem clashingTemplate_fill (style : Bom.Style) (d : Distribution) :
    clashingTemplate.fill style d = Bom.dependencies style d.coordinates := by
  have hdisplay : Text.replace Bom.dependenciesMarker Bom.displayMarker d.name.display =
      Bom.dependenciesMarker := rfl
  have hshort : Text.replace Bom.dependenciesMarker Bom.shortMarker d.name.short =
      Bom.dependenciesMarker := rfl
  have hmarker (new : List Char) : Text.replaceAll Bom.dependenciesMarker.toList new
      Bom.dependenciesMarker.toList = new ++ [] := rfl
  unfold Bom.Template.fill clashingTemplate
  dsimp only
  rw [hdisplay, hshort]
  unfold Text.replace
  rw [hmarker, List.append_nil, String.ofList_toList]

def clashingOlder : Distribution where
  archive := "apache-tomee-plus-8.0.6.zip"
  name := ⟨"tomee-plus", "TomEE Plus"⟩
  coordinates := [⟨"org.eclipse.jdt", "ecj", .fixed "3.22.0"⟩]
  unknown := []

def clashingNewer : Distribution where
  archive := "apache-tomee-plus-8.0.7.zip"
  name := ⟨"tomee-plus", "TomEE Plus"⟩
  coordinates := [NamingRule.platformModule "tomcat-catalina"]
  unknown := []

def clashingFiles (archive : String) : List Path :=
  if archive = clashingOlder.archive then [.ofString "ecj-3.jar"] else [.ofString "catalina.jar"]

theorem clashing_plan :
    (plan clashing (fun _ => some clashing.unusedPath) {} clashingRequest).2.outcome =
      .ok ⟨clashingTemplate, [clashingOlder, clashingNewer]⟩ := by
  have harchives : (Selection.archives clashing clashingRequest.archives {}).outcome =
      .ok [clashingOlder.archive, clashingNewer.archive] :=
    archives_of_selected (by decide +kernel) (by decide) (by decide)
  have hf : ∀ archive ∈ [clashingOlder.archive, clashingNewer.archive],
      (contents clashing (some clashing.unusedPath)
        (clashingRequest.archives.join (.ofString archive))).2 = .ok (clashingFiles archive) := by
    decide +kernel
  exact plan_of_parts (by decide +kernel) harchives (by decide +kernel) hf
    (by decide +kernel) rfl

theorem clashing_run :
    (run clashing true {} clashingRequest).1 = (execute clashing clashingRequest
        ⟨clashingTemplate, [clashingOlder, clashingNewer]⟩).1 ∧
      (run clashing true {} clashingRequest).2.outcome = (execute clashing clashingRequest
        ⟨clashingTemplate, [clashingOlder, clashingNewer]⟩).2.outcome :=
  runIn_of_plan_ok clashing_plan

/-- The newer archive's manifest takes the place of the older one's. -/
theorem clashing_loses_manifest :
    ∃ summary, (run clashing true {} clashingRequest).2.outcome = .ok summary ∧
      summary.distributions = [clashingOlder, clashingNewer] ∧ ¬summary.written.Nodup ∧
      (run clashing true {} clashingRequest).1.read
          (Bom.path clashingRequest.output clashingOlder) =
        .ok (clashingTemplate.fill clashingRequest.style clashingNewer).toUTF8 ∧
      clashingTemplate.fill clashingRequest.style clashingNewer ≠
        clashingTemplate.fill clashingRequest.style clashingOlder := by
  obtain ⟨htree, hout⟩ := clashing_run
  obtain ⟨summary, hok⟩ := exists_of_isOk (x := (execute clashing clashingRequest
    ⟨clashingTemplate, [clashingOlder, clashingNewer]⟩).2.outcome) (by decide +kernel)
  obtain ⟨hds, hpaths, hwritten⟩ := execute_ok rfl hok
  have hsame : Bom.path clashingRequest.output clashingNewer =
      Bom.path clashingRequest.output clashingOlder := rfl
  refine ⟨summary, hout.trans hok, hds, ?_, ?_, ?_⟩
  · rw [hpaths, List.map_cons, List.map_cons, hsame]
    simp
  · obtain ⟨loc, hl⟩ := hwritten.located clashingNewer (by simp)
    have hlast : (lyingAt (execute clashing clashingRequest
        ⟨clashingTemplate, [clashingOlder, clashingNewer]⟩).1 clashingRequest.output loc
        [clashingOlder, clashingNewer]).getLast? = some clashingNewer := by
      simp [lyingAt, ← hsame, hl]
    have hread := FileTree.read_of_locate hl (hwritten.last loc _ hlast)
    rw [hsame, ← htree] at hread
    exact hread
  · rw [clashingTemplate_fill, clashingTemplate_fill]
    decide +kernel

/-- The older archive beside one with another name, and the same template. -/
def paired : FileTree where
  entries := (treeOf [("apache-tomee-plus-8.0.6.zip", archiveOf ["ecj-3.jar"]),
      ("apache-tomee-webprofile-8.0.6.zip", archiveOf ["catalina.jar"])]).entries ++
    [([Text.bytes "template.xml"], .file Bom.dependenciesMarker.toUTF8)]

def pairedOther : Distribution :=
  { clashingNewer with
    archive := "apache-tomee-webprofile-8.0.6.zip"
    name := ⟨"tomee-webprofile", "TomEE WebProfile"⟩ }

theorem paired_archives :
    (Selection.archives paired clashingRequest.archives {}).outcome =
      .ok [clashingOlder.archive, pairedOther.archive] :=
  archives_of_selected (by decide +kernel) (by decide) (by decide)

theorem paired_plan :
    (plan paired (fun _ => some paired.unusedPath) {} clashingRequest).2.outcome =
      .ok ⟨clashingTemplate, [clashingOlder, pairedOther]⟩ := by
  have hf : ∀ archive ∈ [clashingOlder.archive, pairedOther.archive],
      (contents paired (some paired.unusedPath)
        (clashingRequest.archives.join (.ofString archive))).2 = .ok (clashingFiles archive) := by
    decide +kernel
  exact plan_of_parts (by decide +kernel) paired_archives (by decide +kernel) hf
    (by decide +kernel) rfl

theorem paired_finds_manifests :
    ∃ summary s, (run paired true {} clashingRequest).2.outcome = .ok summary ∧
      (setup paired {} clashingRequest).outcome = .ok s ∧
      summary.distributions = [clashingOlder, pairedOther] ∧ summary.written.Nodup ∧
      List.Forall₂ (fun path d => (run paired true {} clashingRequest).1.read path =
        .ok (s.template.fill clashingRequest.style d).toUTF8) summary.written
        summary.distributions := by
  obtain ⟨htree, hout⟩ := runIn_of_plan_ok paired_plan
  obtain ⟨summary, hok⟩ := exists_of_isOk (x := (execute paired clashingRequest
    ⟨clashingTemplate, [clashingOlder, pairedOther]⟩).2.outcome) (by decide +kernel)
  obtain ⟨hds, -, -⟩ := execute_ok rfl hok
  obtain ⟨s, hs, hiff⟩ := manifests_distinct_iff (by decide +kernel) rfl (hout.trans hok)
  have harchives : s.archives = [clashingOlder.archive, pairedOther.archive] := by
    obtain ⟨-, hselect, -⟩ := setup_ok hs
    rw [paired_archives] at hselect
    exact (Except.ok.inj hselect).symm
  have hapart : ([clashingOlder, pairedOther].map fun d => (execute paired clashingRequest
      ⟨clashingTemplate, [clashingOlder, pairedOther]⟩).1.locate true
        (Bom.path clashingRequest.output d)).Nodup := by
    decide +kernel
  refine ⟨summary, s, hout.trans hok, hs, hds, hiff.2 ⟨?_, ?_⟩⟩
  · rw [harchives]
    decide +kernel
  · intro d hd e he hsame
    rw [hds] at hd he
    rw [htree] at hsame
    rw [List.inj_on_of_nodup_map hapart hd he hsame]

theorem exists_leadsTo {d : Distribution} {place : Place}
    (hname : (Path.Component.name (Text.bytes d.name.short)).IsOrdinary)
    (h : u.locate true (Bom.path output d) = .ok place) : ∃ top, u.LeadsTo output top := by
  obtain ⟨hne, -, -, hslash⟩ := hname
  obtain ⟨r, hsteps, -⟩ : ∃ r, (Bom.path output d).steps = output.named ++
      (Text.bytes d.name.short :: Text.bytes Bom.fileName :: r) ∧ (r = [] ∨ r = [[Path.dot]]) :=
    Bom.steps_path hslash hne
  obtain ⟨-, -, hf⟩ := FileTree.locate_ok h
  rw [Bom.start_path u hslash, hsteps] at hf
  obtain ⟨m, top, hl⟩ := FileTree.leads_of_follow (List.cons_ne_nil _ _) hf
  exact ⟨top, m, hl⟩

/-- Manifests of distributions with places of their own lie at one place only if they have one path.
-/
theorem path_eq_of_locate {d e : Distribution} {top : Location} (hd : Bom.HasOwnPlace u top d)
    (he : Bom.HasOwnPlace u top e) (htop : u.LeadsTo output top) {loc : Location}
    (hdl : u.locate true (Bom.path output d) = .ok (.present loc))
    (hel : u.locate true (Bom.path output e) = .ok (.present loc)) :
    Bom.path output d = Bom.path output e := by
  obtain ⟨m, hl⟩ := htop
  have hdloc := hd.locate_path hl hdl
  have heloc := he.locate_path hl hel
  rw [hdloc] at heloc
  have hbytes := List.append_cancel_left heloc
  obtain ⟨-, -, -, hdslash⟩ := hd.name
  obtain ⟨-, -, -, heslash⟩ := he.name
  exact (Bom.path_eq_iff hdslash heslash).2 (Text.bytes_injective (List.cons.inj hbytes).1)

/-- Where all distributions have places of their own, the short names alone decide: the manifests
are all there exactly if no two archives share one. -/
theorem manifests_of_no_links {summary : Summary} {top : Location}
    (ht : t.NamesArePlain) (hd : request.dryRun = false)
    (h : (runIn t scratch settings request).2.outcome = .ok summary)
    (htop : (runIn t scratch settings request).1.LeadsTo request.output top)
    (hown : ∀ d ∈ summary.distributions,
      Bom.HasOwnPlace (runIn t scratch settings request).1 top d) :
    ∃ s, (setup t settings request).outcome = .ok s ∧
      ((summary.written.Nodup ∧ ∀ d ∈ summary.distributions,
          (runIn t scratch settings request).1.read (Bom.path request.output d) =
            .ok (s.template.fill request.style d).toUTF8) ↔
        (s.archives.map fun archive =>
          (DistributionName.ofArchive archive settings.namePrefix).short).Nodup) := by
  obtain ⟨s, hs, hpaths, hshort, hplain, hwritten⟩ := runIn_written ht hd h
  refine ⟨s, hs, ?_⟩
  rw [hpaths, ← hshort, nodup_paths_iff hplain, hwritten.read_all_iff]
  refine and_iff_left_of_imp fun hnodup => ?_
  intro d hin e hein hsame
  obtain ⟨loc, hl⟩ := hwritten.located d hin
  have hpath := path_eq_of_locate (hown d hin) (hown e hein) htop hl (hsame ▸ hl)
  have hname : d.name.short = e.name.short :=
    (Bom.path_eq_iff (hplain d hin) (hplain e hein)).1 hpath
  have hde : d = e := List.inj_on_of_nodup_map hnodup hin hein hname
  rw [hde]

end BillOfMaterials.Generation
