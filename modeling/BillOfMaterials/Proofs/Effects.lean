import BillOfMaterials.Proofs.Footprint
import BillOfMaterials.Proofs.Manifests
import BillOfMaterials.Proofs.Survey

/-!
# What a run writes

Everything a run looks at is looked at before it writes anything, so the plan of a run and the
failures before it do not depend on whether the run may write. What follows is a batch of writes,
one for each distribution in order. Each one puts a file at the place its path leads to, and makes
the directories missing on the way, so after any part of the batch the last manifest at each place
stands there and all else is as it was. A batch that stops at a manifest keeps the ones before it.
-/
namespace BillOfMaterials.Generation

variable {t u : FileTree} {scratch : Scratch} {settings : Settings} {request : Request}
  {template : Bom.Template} {style : Bom.Style} {output : Path}

/-! ## A batch of manifests -/

theorem rooted_inTurn (ht : t.Rooted) (template : Bom.Template) (style : Bom.Style) (output : Path)
    (ds : List Distribution) :
    (inTurn (writeManifest template style output) ds t).1.Rooted := by
  refine inTurn_preserves (P := FileTree.Rooted) (fun u d _ hu => ?_) ht
  have hkept := hu.writeWithDirectories (Bom.path output d) (template.fill style d).toUTF8
  unfold writeManifest
  dsimp only
  cases hw : u.writeWithDirectories (Bom.path output d) (template.fill style d).toUTF8 with
  | mk v outcome =>
    rw [hw] at hkept
    cases outcome <;> exact hkept

/-- What a tree `t` has become once the manifests of `written` have been written in this order, and
those of `tried` have been tried. -/
structure Effect (t u : FileTree) (template : Bom.Template) (style : Bom.Style) (output : Path)
    (written tried : List Distribution) : Prop where
  /-- Each manifest has a place. -/
  located : ∀ d ∈ written, ∃ loc, u.locate true (Bom.path output d) = .ok (.present loc)
  /-- The file there has the text of the last distribution whose manifest lies there. -/
  last : ∀ loc d, (lyingAt u output loc written).getLast? = some d →
    u.at? loc = some (.file (template.fill style d).toUTF8)
  /-- It lies in directories. -/
  inside : ∀ loc above, lyingAt u output loc written ≠ [] → above <+: loc → above ≠ loc →
    u.at? above = some .directory
  /-- All else is as it was, but for directories that were missing on the way to a manifest. -/
  outside : ∀ loc, lyingAt u output loc written = [] → u.at? loc = t.at? loc ∨
    t.at? loc = none ∧ u.at? loc = some .directory ∧
      ∃ d ∈ tried, u.LeadsThrough (Bom.path output d) loc

theorem exists_last {loc : Location} {ds : List Distribution}
    (h : lyingAt u output loc ds ≠ []) : ∃ d, (lyingAt u output loc ds).getLast? = some d :=
  Option.ne_none_iff_exists'.1 (mt List.getLast?_eq_none_iff.1 h)

theorem Written.effect {written tried : List Distribution}
    (h : Written t u template style output written)
    (htouched : t.Touched (written.map (Bom.path output)) (tried.map (Bom.path output)) u)
    (hu : u.Rooted) : Effect t u template style output written tried where
  located := h.located
  last := h.last
  inside loc above hne habove hproper := by
    obtain ⟨d, hd⟩ := exists_last hne
    exact hu.directory_of_prefix (h.last loc d hd) habove hproper
  outside loc hnone := by
    have hloc (p : Path) (hp : p ∈ written.map (Bom.path output)) :
        u.locate true p ≠ .ok (.present loc) := by
      obtain ⟨d, hd, rfl⟩ := List.mem_map.1 hp
      intro hl
      have hmem : d ∈ lyingAt u output loc written := mem_lyingAt.2 ⟨hd, hl⟩
      rw [hnone] at hmem
      cases hmem
    rcases htouched.outside loc hloc with hsame | ⟨hmissing, hdirectory, p, hp, hl⟩
    · exact .inl hsame
    · obtain ⟨d, hd, rfl⟩ := List.mem_map.1 hp
      exact .inr ⟨hmissing, hdirectory, d, hd, hl⟩

/-- No link is made. -/
theorem Effect.link {written tried : List Distribution} {loc : Location} {target : Path}
    (h : Effect t u template style output written tried) (hl : u.at? loc = some (.link target)) :
    t.at? loc = some (.link target) := by
  by_cases hnone : lyingAt u output loc written = []
  · rcases h.outside loc hnone with hsame | ⟨-, hdirectory, -⟩
    · rw [← hsame, hl]
    · rw [hl] at hdirectory
      cases hdirectory
  · obtain ⟨d, hd⟩ := exists_last hnone
    rw [h.last loc d hd] at hl
    cases hl

/-! ## The part before anything is written -/

theorem archives_ne_unwritten {directory path : Path} :
    (Selection.archives t directory settings).outcome ≠ .error (.unwrittenManifest path) := by
  unfold Selection.archives
  cases t.directory? directory with
  | none => exact nofun
  | some location =>
    dsimp only
    rw [Logged.outcome_bind]
    split <;> exact nofun

theorem template_ne_unwritten {given : Option Path} {path : Path} :
    Generation.template t given ≠ .error (.unwrittenManifest path) := by
  unfold Generation.template
  split
  · exact nofun
  · split <;> exact nofun

theorem survey_ne_unwritten {root path : Path} {extension : String} :
    (ArtifactIndex.survey t root extension).outcome ≠ .error (.unwrittenManifest path) := by
  cases hd : t.directory? root with
  | none =>
    unfold ArtifactIndex.survey
    rw [hd]
    exact nofun
  | some directory =>
    rcases ArtifactIndex.survey_cases extension hd with ⟨-, hout⟩ | ⟨-, hout⟩ <;>
      · rw [hout]
        exact nofun

theorem setup_ne_unwritten {path : Path} :
    (setup t settings request).outcome ≠ .error (.unwrittenManifest path) := by
  intro h
  unfold setup at h
  split at h
  · rw [Logged.outcome_bind] at h
    cases h
  simp only [Logged.outcome_bind] at h
  rcases bind_eq_error_iff.1 h with h | ⟨archives, -, h⟩
  · exact archives_ne_unwritten h
  rcases bind_eq_error_iff.1 h with h | ⟨template, -, h⟩
  · exact template_ne_unwritten h
  rcases bind_eq_error_iff.1 h with h | ⟨index, -, h⟩
  · exact survey_ne_unwritten h
  · cases h

theorem distribution_ne_unwritten {m : Mapping} {directory path : Path} {archive : String} :
    (distribution scratch m directory t archive).2.outcome ≠
      .error (.unwrittenManifest path) := by
  rw [distribution_outcome]
  unfold contents
  dsimp only
  split
  · rename_i files _
    cases files <;> exact nofun
  · exact nofun

/-- The first part of a run cannot fail by a manifest that cannot be written. -/
theorem plan_ne_unwritten {path : Path} :
    (plan t scratch settings request).2.outcome ≠ .error (.unwrittenManifest path) := by
  intro h
  cases hs : (setup t settings request).outcome with
  | error failure =>
    unfold plan at h
    simp only [hs] at h
    cases h
    exact setup_ne_unwritten hs
  | ok s =>
    rw [plan_outcome hs] at h
    rcases bind_eq_error_iff.1 h with h | ⟨ds, -, h⟩
    · obtain ⟨u, archive, -, hu⟩ := inTurn_error h
      exact distribution_ne_unwritten hu
    · obtain ⟨hfailure, -⟩ := gate_error_iff.1 h
      cases hfailure

/-! ## A run that succeeds -/

theorem Effect.ownPlace {written tried : List Distribution}
    (h : Effect t u template style output written tried) {top : Location} {d : Distribution}
    (hown : Bom.HasOwnPlace t top d) : Bom.HasOwnPlace u top d where
  name := hown.name
  directory target hl := hown.directory target (h.link hl)
  file target hl := hown.file target (h.link hl)

/-- Where all distributions have places of their own, a manifest is read as the text of the last
distribution with its path. -/
theorem Effect.read {written tried : List Distribution}
    (h : Effect t u template style output written tried) {top : Location}
    (htop : u.LeadsTo output top) (hown : ∀ d ∈ written, Bom.HasOwnPlace t top d)
    {d last : Distribution} (hd : d ∈ written)
    (hlast : (written.filter fun e => Bom.path output e = Bom.path output d).getLast? =
      some last) :
    u.read (Bom.path output d) = .ok (template.fill style last).toUTF8 := by
  obtain ⟨loc, hl⟩ := h.located d hd
  have hsame : lyingAt u output loc written =
      written.filter fun e => Bom.path output e = Bom.path output d := by
    refine List.filter_congr fun e he => ?_
    rw [decide_eq_decide]
    constructor
    · intro hel
      exact path_eq_of_locate (h.ownPlace (hown e he)) (h.ownPlace (hown d hd)) htop hel hl
    · intro hpath
      rw [hpath, hl]
  exact FileTree.read_of_locate hl (h.last loc last (hsame ▸ hlast))

theorem runIn_of_plan {p : Plan} (ht : t.Rooted)
    (hp : (plan t scratch settings request).2.outcome = .ok p) (hd : request.dryRun = false) :
    ∃ before after, p.distributions = before ++ after ∧
      Effect t (runIn t scratch settings request).1 p.template request.style request.output before
        (before ++ after.take 1) ∧
      (runIn t scratch settings request).2.outcome =
        match after with
        | [] => .ok ⟨p.distributions, p.distributions.map (Bom.path request.output), false⟩
        | d :: _ => .error (.unwrittenManifest (Bom.path request.output d)) := by
  obtain ⟨htree, hout⟩ := runIn_of_plan_ok hp
  obtain ⟨before, after, hds, hwritten, htouched, hresult⟩ := execute_cases t p hd
  have hrooted : (execute t request p).1.Rooted := by
    rw [(execute_real hd).1]
    exact rooted_inTurn ht _ _ _ _
  rw [htree, hout]
  exact ⟨before, after, hds, hwritten.effect htouched hrooted, hresult⟩

theorem runIn_effect_of_plan {p : Plan} {summary : Summary} (ht : t.Rooted)
    (hp : (plan t scratch settings request).2.outcome = .ok p) (hd : request.dryRun = false)
    (h : (runIn t scratch settings request).2.outcome = .ok summary) :
    summary = ⟨p.distributions, p.distributions.map (Bom.path request.output), false⟩ ∧
      Effect t (runIn t scratch settings request).1 p.template request.style request.output
        p.distributions p.distributions := by
  obtain ⟨before, after, hds, heffect, hout⟩ := runIn_of_plan ht hp hd
  rw [h] at hout
  cases after with
  | cons d rest => cases hout
  | nil =>
    rw [List.append_nil] at hds
    rw [List.take_nil, List.append_nil, ← hds] at heffect
    exact ⟨Except.ok.inj hout, heffect⟩

/-- What a successful run does to a tree. The written paths are those of the distributions in order;
the file at each place where manifests lie has the text of the last distribution whose manifest lies
there, and lies in directories; all else is as it was, but for directories that were missing on the
way to a manifest. Where all distributions have places of their own in the output directory, the
last distribution with a path is the one whose text is read at it. -/
theorem runIn_effect {summary : Summary} (ht : t.Rooted) (hd : request.dryRun = false)
    (h : (runIn t scratch settings request).2.outcome = .ok summary) :
    ∃ s, (setup t settings request).outcome = .ok s ∧
      summary.written.length = summary.distributions.length ∧
      summary.written = summary.distributions.map (Bom.path request.output) ∧
      Effect t (runIn t scratch settings request).1 s.template request.style request.output
        summary.distributions summary.distributions ∧
      ∀ d ∈ summary.distributions, (Path.Component.name (Text.bytes d.name.short)).IsOrdinary →
        ∃ top, (runIn t scratch settings request).1.LeadsTo request.output top ∧
          ((∀ e ∈ summary.distributions, Bom.HasOwnPlace t top e) → ∀ last,
            (summary.distributions.filter fun e =>
              Bom.path request.output e = Bom.path request.output d).getLast? = some last →
            (runIn t scratch settings request).1.read (Bom.path request.output d) =
              .ok (s.template.fill request.style last).toUTF8) := by
  obtain ⟨p, hp, -⟩ := runIn_ok h
  obtain ⟨s, hs, htemplate, -, -⟩ := plan_ok hp
  obtain ⟨rfl, heffect⟩ := runIn_effect_of_plan ht hp hd h
  rw [htemplate] at heffect
  refine ⟨s, hs, List.length_map .., rfl, heffect, fun d hd hname => ?_⟩
  obtain ⟨loc, hl⟩ := heffect.located d hd
  obtain ⟨top, htop⟩ := exists_leadsTo hname hl
  exact ⟨top, htop, fun hown last hlast => heffect.read htop hown hd hlast⟩

theorem clashing_effect :
    ∃ summary, (run clashing true {} clashingRequest).2.outcome = .ok summary ∧
      summary.distributions = [clashingOlder, clashingNewer] ∧
      Effect clashing (run clashing true {} clashingRequest).1 clashingTemplate
        clashingRequest.style clashingRequest.output summary.distributions
        summary.distributions ∧
      (run clashing true {} clashingRequest).1.read
          (Bom.path clashingRequest.output clashingOlder) =
        .ok (clashingTemplate.fill clashingRequest.style clashingNewer).toUTF8 := by
  have ht : clashing.Rooted := ⟨.of_entries (by decide +kernel), rfl⟩
  obtain ⟨htree, hout⟩ := clashing_run
  obtain ⟨summary, hx⟩ := exists_of_isOk (x := (execute clashing clashingRequest
    ⟨clashingTemplate, [clashingOlder, clashingNewer]⟩).2.outcome) (by decide +kernel)
  have hds : summary.distributions = [clashingOlder, clashingNewer] := execute_distributions hx
  obtain ⟨s, hs, -, -, heffect, hread⟩ := runIn_effect ht rfl (hout.trans hx)
  have htemplate : s.template = clashingTemplate := by
    obtain ⟨s', hs', hsame, -, -⟩ := plan_ok clashing_plan
    rw [hs] at hs'
    rw [Except.ok.inj hs', ← hsame]
  have hnames : ∀ d ∈ summary.distributions,
      (Path.Component.name (Text.bytes d.name.short)).IsOrdinary := by
    rw [hds]
    decide
  have hno := FileTree.not_link_of_entries (t := clashing) (by simp [clashing, treeOf])
  have hmem : clashingOlder ∈ summary.distributions := by
    rw [hds]
    exact List.mem_cons_self
  rw [htemplate] at heffect hread
  obtain ⟨top, -, hread⟩ := hread clashingOlder hmem (hnames _ hmem)
  refine ⟨summary, hout.trans hx, hds, heffect, hread ?_ clashingNewer ?_⟩
  · exact fun d hd => ⟨hnames d hd, hno _, hno _⟩
  · rw [hds]
    decide

/-- Archives whose short names are the empty text and a dot, once the settings remove the rest. -/
def neighbours : FileTree where
  entries := (treeOf [("apache-tomee-plus-8.0.6.zip", archiveOf ["ecj-3.jar"]),
      ("apache-tomee-plus.-8.0.6.zip", archiveOf ["catalina.jar"])]).entries ++
    [([Text.bytes "template.xml"], .file Bom.dependenciesMarker.toUTF8)]

def neighboursSettings : Settings := { namePrefix := "apache-tomee-plus" }

/-- The manifests lie below the working directory. -/
def neighboursRequest : Request := { clashingRequest with output := ⟨[]⟩ }

def neighbourPlain : Distribution := { clashingOlder with name := ⟨"", ""⟩ }

def neighbourDotted : Distribution :=
  { clashingNewer with archive := "apache-tomee-plus.-8.0.6.zip", name := ⟨".", "."⟩ }

theorem neighbours_plan :
    (plan neighbours (fun _ => some neighbours.unusedPath) neighboursSettings
      neighboursRequest).2.outcome = .ok ⟨clashingTemplate, [neighbourPlain, neighbourDotted]⟩ := by
  have harchives : (Selection.archives neighbours neighboursRequest.archives
      neighboursSettings).outcome = .ok [neighbourPlain.archive, neighbourDotted.archive] :=
    archives_of_selected (by decide +kernel) (by decide) (by decide)
  have hf : ∀ archive ∈ [neighbourPlain.archive, neighbourDotted.archive],
      (contents neighbours (some neighbours.unusedPath)
        (neighboursRequest.archives.join (.ofString archive))).2 = .ok (clashingFiles archive) := by
    decide +kernel
  exact plan_of_parts (by decide +kernel) harchives (by decide +kernel) hf (by decide +kernel) rfl

/-- The manifests have paths that differ in their components, and lie at one place nevertheless. -/
theorem neighbours_share_place :
    ∃ summary, (run neighbours true neighboursSettings neighboursRequest).2.outcome = .ok summary ∧
      (∀ loc target, neighbours.at? loc ≠ some (.link target)) ∧
      summary.distributions = [neighbourPlain, neighbourDotted] ∧
      summary.written = [.ofString "pom.xml", .ofString "./pom.xml"] ∧
      (summary.written.map Path.components).Nodup ∧
      (run neighbours true neighboursSettings neighboursRequest).1.read (.ofString "pom.xml") =
        .ok (clashingTemplate.fill neighboursRequest.style neighbourDotted).toUTF8 ∧
      clashingTemplate.fill neighboursRequest.style neighbourDotted ≠
        clashingTemplate.fill neighboursRequest.style neighbourPlain := by
  have ht : neighbours.Rooted := ⟨.of_entries (by decide +kernel), rfl⟩
  obtain ⟨htree, hout⟩ := runIn_of_plan_ok neighbours_plan
  obtain ⟨summary, hx⟩ := exists_of_isOk (x := (execute neighbours neighboursRequest
    ⟨clashingTemplate, [neighbourPlain, neighbourDotted]⟩).2.outcome) (by decide +kernel)
  obtain ⟨rfl, heffect⟩ := runIn_effect_of_plan ht neighbours_plan rfl (hout.trans hx)
  rw [htree] at heffect
  have hlying : (lyingAt (execute neighbours neighboursRequest
      ⟨clashingTemplate, [neighbourPlain, neighbourDotted]⟩).1 neighboursRequest.output
      [Text.bytes "pom.xml"] [neighbourPlain, neighbourDotted]).getLast? =
      some neighbourDotted := by decide +kernel
  have hplain : (execute neighbours neighboursRequest
      ⟨clashingTemplate, [neighbourPlain, neighbourDotted]⟩).1.locate true
      (.ofString "pom.xml") = .ok (.present [Text.bytes "pom.xml"]) := by
    decide +kernel
  have hread := FileTree.read_of_locate hplain (heffect.last _ _ hlying)
  rw [← htree] at hread
  refine ⟨_, hout.trans hx, FileTree.not_link_of_entries (by simp [neighbours, treeOf]), rfl, rfl,
    by decide +kernel, hread, ?_⟩
  rw [clashingTemplate_fill, clashingTemplate_fill]
  decide +kernel

/-! ## A run that fails to write -/

/-- What is left of a batch when one manifest cannot be written: those before it have been written,
and no others. So the run has left nothing of the batch behind exactly if each place of an earlier
manifest held, before the run, the text that was written there. -/
theorem runIn_leaves_earlier {path : Path} (ht : t.Rooted)
    (h : (runIn t scratch settings request).2.outcome = .error (.unwrittenManifest path)) :
    ∃ p before d after, (plan t scratch settings request).2.outcome = .ok p ∧
      p.distributions = before ++ d :: after ∧ path = Bom.path request.output d ∧
      Effect t (runIn t scratch settings request).1 p.template request.style request.output before
        (before ++ [d]) ∧
      ((∀ e ∈ before, ∀ loc, (runIn t scratch settings request).1.locate true
            (Bom.path request.output e) = .ok (.present loc) →
          (runIn t scratch settings request).1.at? loc = t.at? loc) ↔
        ∀ loc last, (lyingAt (runIn t scratch settings request).1 request.output loc
            before).getLast? = some last →
          t.at? loc = some (.file (p.template.fill request.style last).toUTF8)) := by
  cases hp : (plan t scratch settings request).2.outcome with
  | error failure =>
    rw [(runIn_of_plan_error hp).2] at h
    cases h
    exact absurd hp plan_ne_unwritten
  | ok p =>
    have hd : request.dryRun = false := by
      rw [(runIn_of_plan_ok hp).2] at h
      exact (execute_error h).1
    obtain ⟨before, after, hds, heffect, hout⟩ := runIn_of_plan ht hp hd
    rw [h] at hout
    cases after with
    | nil => cases hout
    | cons d after =>
      cases hout
      refine ⟨p, before, d, after, rfl, hds, rfl, heffect, ?_, ?_⟩
      · intro hsame loc last hlast
        obtain ⟨hin, hl⟩ := mem_lyingAt.1 (List.mem_of_getLast? hlast)
        rw [← hsame last hin loc hl, heffect.last loc last hlast]
      · intro htexts e he loc hl
        obtain ⟨last, hlast⟩ := exists_last (List.ne_nil_of_mem (mem_lyingAt.2 ⟨he, hl⟩))
        rw [htexts loc last hlast, heffect.last loc last hlast]

/-- A file stands where the second manifest needs a directory. -/
def blocked : FileTree where
  entries := (treeOf [("apache-tomee-plume-8.0.6.zip", archiveOf ["catalina.jar"]),
      ("apache-tomee-plus-8.0.6.zip", archiveOf ["ecj-3.jar"])]).entries ++
    [([Text.bytes "template.xml"], .file Bom.dependenciesMarker.toUTF8),
      ([Text.bytes "boms"], .directory),
      ([Text.bytes "boms", Text.bytes "tomee-plus"], .file "taken".toUTF8)]

def blockedEarlier : Distribution :=
  { clashingNewer with
    archive := "apache-tomee-plume-8.0.6.zip"
    name := ⟨"tomee-plume", "TomEE Plume"⟩ }

theorem blocked_plan :
    (plan blocked (fun _ => some blocked.unusedPath) {} clashingRequest).2.outcome =
      .ok ⟨clashingTemplate, [blockedEarlier, clashingOlder]⟩ := by
  have harchives : (Selection.archives blocked clashingRequest.archives {}).outcome =
      .ok [blockedEarlier.archive, clashingOlder.archive] :=
    archives_of_selected (by decide +kernel) (by decide) (by decide)
  have hf : ∀ archive ∈ [blockedEarlier.archive, clashingOlder.archive],
      (contents blocked (some blocked.unusedPath)
        (clashingRequest.archives.join (.ofString archive))).2 = .ok (clashingFiles archive) := by
    decide +kernel
  exact plan_of_parts (by decide +kernel) harchives (by decide +kernel) hf (by decide +kernel) rfl

theorem blocked_fails :
    (execute blocked clashingRequest
      ⟨clashingTemplate, [blockedEarlier, clashingOlder]⟩).2.outcome =
      .error (.unwrittenManifest (Bom.path clashingRequest.output clashingOlder)) :=
  error_of_map_error (by decide +kernel)

theorem blocked_effect :
    ∃ path, (run blocked true {} clashingRequest).2.outcome = .error (.unwrittenManifest path) ∧
      ∃ before d after, [blockedEarlier, clashingOlder] = before ++ d :: after ∧
        path = Bom.path clashingRequest.output d ∧
        Effect blocked (run blocked true {} clashingRequest).1 clashingTemplate
          clashingRequest.style clashingRequest.output before (before ++ [d]) := by
  have ht : blocked.Rooted := ⟨.of_entries (by decide +kernel), rfl⟩
  obtain ⟨htree, hout⟩ := runIn_of_plan_ok blocked_plan
  have hx := hout.trans blocked_fails
  obtain ⟨p, before, d, after, hp, hds, hpath, heffect, -⟩ := runIn_leaves_earlier ht hx
  rw [blocked_plan] at hp
  cases hp
  exact ⟨_, hx, before, d, after, hds, hpath, heffect⟩

/-- The first manifest is left behind where there was none. -/
theorem blocked_leaves_first :
    (plan blocked (fun _ => some blocked.unusedPath) {} clashingRequest).2.outcome =
        .ok ⟨clashingTemplate, [blockedEarlier, clashingOlder]⟩ ∧
      (run blocked true {} clashingRequest).2.outcome =
        .error (.unwrittenManifest (Bom.path clashingRequest.output clashingOlder)) ∧
      blocked.read (Bom.path clashingRequest.output blockedEarlier) = .error .notFound ∧
      (run blocked true {} clashingRequest).1.read
          (Bom.path clashingRequest.output blockedEarlier) =
        .ok (clashingTemplate.fill clashingRequest.style blockedEarlier).toUTF8 := by
  have ht : blocked.Rooted := ⟨.of_entries (by decide +kernel), rfl⟩
  obtain ⟨htree, hout⟩ := runIn_of_plan_ok blocked_plan
  have hx := hout.trans blocked_fails
  obtain ⟨before, after, hds, heffect, hresult⟩ := runIn_of_plan ht blocked_plan rfl
  -- the batch stops at its second distribution, since the run names that one
  have hbefore : before = [blockedEarlier] := by
    rw [hx] at hresult
    rcases before with - | ⟨first, - | ⟨second, rest⟩⟩
    · obtain rfl : [blockedEarlier, clashingOlder] = after := hds
      cases hresult
    · obtain ⟨rfl, -⟩ := List.cons.inj hds
      rfl
    · obtain ⟨-, hrest⟩ := List.cons.inj hds
      obtain ⟨-, hrest⟩ := List.cons.inj hrest
      obtain ⟨-, rfl⟩ := List.append_eq_nil_iff.1 hrest.symm
      cases hresult
  have hplace : (execute blocked clashingRequest
      ⟨clashingTemplate, [blockedEarlier, clashingOlder]⟩).1.locate true
      (Bom.path clashingRequest.output blockedEarlier) =
        .ok (.present [Text.bytes "boms", Text.bytes "tomee-plume", Text.bytes "pom.xml"]) := by
    decide +kernel
  rw [← htree] at hplace
  have hlast : (lyingAt (runIn blocked (fun _ => some blocked.unusedPath) {} clashingRequest).1
      clashingRequest.output [Text.bytes "boms", Text.bytes "tomee-plume", Text.bytes "pom.xml"]
      before).getLast? = some blockedEarlier := by
    simp [hbefore, lyingAt, hplace]
  exact ⟨blocked_plan, hx, by decide +kernel,
    FileTree.read_of_locate hplace (heffect.last _ _ hlast)⟩

/-! ## A run that is told to write nothing -/

/-- Nothing that is looked at before anything is written depends on whether it will be written. -/
theorem plan_dryRun (b : Bool) :
    plan t scratch settings { request with dryRun := b } = plan t scratch settings request := rfl

theorem runIn_dry {p : Plan} (hp : (plan t scratch settings request).2.outcome = .ok p)
    (hd : request.dryRun = true) :
    (runIn t scratch settings request).2.outcome = .ok ⟨p.distributions, [], true⟩ := by
  rw [(runIn_of_plan_ok hp).2]
  unfold execute
  rw [if_pos hd]
  rfl

theorem runIn_real {p : Plan} (hp : (plan t scratch settings request).2.outcome = .ok p)
    (hd : request.dryRun = false) :
    (∃ written,
        (runIn t scratch settings request).2.outcome = .ok ⟨p.distributions, written, false⟩) ∨
      ∃ d ∈ p.distributions, (runIn t scratch settings request).2.outcome =
        .error (.unwrittenManifest (Bom.path request.output d)) := by
  rw [(runIn_of_plan_ok hp).2]
  obtain ⟨before, after, hds, -, -, hout⟩ := execute_cases t p hd
  rw [hout]
  cases after with
  | nil => exact .inl ⟨_, rfl⟩
  | cons d after => exact .inr ⟨d, by simp [hds], rfl⟩

/-- A run that is told to write nothing foretells the run that writes: both fail alike before
anything is written, and where the first one succeeds, the second one reports the same distributions
or cannot write the manifest of one of them. -/
theorem dry_run_foretells (t : FileTree) (scratch : Scratch) (settings : Settings)
    (request : Request) :
    let dry := (runIn t scratch settings { request with dryRun := true }).2.outcome
    let real := (runIn t scratch settings { request with dryRun := false }).2.outcome
    (∀ failure, dry = .error failure → real = .error failure) ∧
    (∀ summary, dry = .ok summary → summary.written = [] ∧
      ((∃ other, real = .ok other ∧ other.distributions = summary.distributions) ∨
        ∃ d ∈ summary.distributions,
          real = .error (.unwrittenManifest (Bom.path request.output d)))) ∧
    (∀ summary, real = .ok summary →
      ∃ other, dry = .ok other ∧ other.distributions = summary.distributions) ∧
    ∀ path, real = .error (.unwrittenManifest path) → ∃ summary, dry = .ok summary := by
  intro dry real
  cases hp : (plan t scratch settings request).2.outcome with
  | error failure =>
    have hplan (b : Bool) :
        (plan t scratch settings { request with dryRun := b }).2.outcome = .error failure := by
      rw [plan_dryRun, hp]
    have hdry : dry = .error failure := (runIn_of_plan_error (hplan true)).2
    have hreal : real = .error failure := (runIn_of_plan_error (hplan false)).2
    refine ⟨fun other h => ?_, fun summary h => ?_, fun summary h => ?_, fun path h => ?_⟩
    · rw [hreal, ← hdry, h]
    · rw [hdry] at h
      cases h
    · rw [hreal] at h
      cases h
    · rw [hreal] at h
      cases h
      exact absurd hp plan_ne_unwritten
  | ok p =>
    have hplan (b : Bool) :
        (plan t scratch settings { request with dryRun := b }).2.outcome = .ok p := by
      rw [plan_dryRun, hp]
    have hdry : dry = .ok ⟨p.distributions, [], true⟩ := runIn_dry (hplan true) rfl
    have hreal : (∃ written, real = .ok ⟨p.distributions, written, false⟩) ∨
        ∃ d ∈ p.distributions, real = .error (.unwrittenManifest (Bom.path request.output d)) :=
      runIn_real (hplan false) rfl
    refine ⟨fun failure h => ?_, fun summary h => ?_, fun summary h => ?_, fun path h => ⟨_, hdry⟩⟩
    · rw [hdry] at h
      cases h
    · rw [hdry] at h
      cases h
      refine ⟨rfl, ?_⟩
      rcases hreal with ⟨written, hok⟩ | hfailed
      · exact .inl ⟨_, hok, rfl⟩
      · exact .inr hfailed
    · rcases hreal with ⟨written, hok⟩ | ⟨d, -, hfailed⟩
      · rw [hok] at h
        cases h
        exact ⟨_, hdry, rfl⟩
      · rw [hfailed] at h
        cases h

theorem blocked_foretold :
    ∃ summary, (run blocked true {} { clashingRequest with dryRun := true }).2.outcome =
        .ok summary ∧
      summary.written = [] ∧
      ∃ d ∈ summary.distributions, (run blocked true {} clashingRequest).2.outcome =
        .error (.unwrittenManifest (Bom.path clashingRequest.output d)) := by
  have hx := (runIn_of_plan_ok blocked_plan).2.trans blocked_fails
  obtain ⟨-, hforetold, -, hfails⟩ := dry_run_foretells blocked
    (fun _ => some blocked.unusedPath) {} clashingRequest
  obtain ⟨summary, hdry⟩ := hfails _ hx
  obtain ⟨hnone, hreal⟩ := hforetold summary hdry
  refine ⟨summary, hdry, hnone, ?_⟩
  rcases hreal with ⟨other, hok, -⟩ | hfailed
  · cases hx.symm.trans hok
  · exact hfailed

end BillOfMaterials.Generation
