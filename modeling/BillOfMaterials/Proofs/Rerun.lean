import BillOfMaterials.Proofs.Additions
import BillOfMaterials.Proofs.Effects
import BillOfMaterials.Proofs.Relocation

/-!
# Running again

The manifests and directories that a run leaves behind are part of what the next run looks at. In a
tree without links they change nothing that it looks for. So it selects the same archives, makes the
same index, unpacks the same files and writes the same manifests to the same places; and since
every directory stands already and every manifest has the text that is written there last, the tree
ends up as it was.
-/
namespace BillOfMaterials

open BillOfMaterials.Path (dot named)

namespace FileTree

variable {t u v : FileTree} {p : Path} {loc loc' : Location} {e e' : FileEntry} {f : Bytes}

/-! ## Putting entries again -/

theorem putIn_of_lookup {es : List (Location × FileEntry)} (h : es.lookup loc = some e) :
    putIn loc e es = es := by
  induction es with
  | nil => cases h
  | cons head rest ih =>
    obtain ⟨l, old⟩ := head
    by_cases hl : l = loc
    · subst hl
      rw [List.lookup_cons, beq_self_eq_true] at h
      rw [putIn, if_pos rfl, Option.some.inj h]
    · have hb : (loc == l) = false := by simpa using fun hc => hl hc.symm
      rw [List.lookup_cons, hb] at h
      rw [putIn, if_neg hl, ih h]

theorem putIn_putIn_same (es : List (Location × FileEntry)) :
    putIn loc e' (putIn loc e es) = putIn loc e' es := by
  induction es with
  | nil => simp [putIn]
  | cons head rest ih =>
    obtain ⟨l, old⟩ := head
    by_cases hl : l = loc
    · simp [putIn, hl]
    · rw [putIn, if_neg hl, putIn, if_neg hl, putIn, if_neg hl, ih]

theorem putIn_comm {es : List (Location × FileEntry)} (h : es.lookup loc ≠ none)
    (hne : loc ≠ loc') :
    putIn loc' e' (putIn loc e es) = putIn loc e (putIn loc' e' es) := by
  induction es with
  | nil => exact absurd rfl h
  | cons head rest ih =>
    obtain ⟨l, old⟩ := head
    by_cases hl : l = loc
    · subst hl
      simp [putIn, hne]
    · have hb : (loc == l) = false := by simpa using fun hc => hl hc.symm
      rw [List.lookup_cons, hb] at h
      by_cases hl' : l = loc'
      · subst hl'
        simp [putIn, hl]
      · simp only [putIn, if_neg hl, if_neg hl', ih h]

theorem put_of_at? (hne : loc ≠ []) (h : t.at? loc = some e) : t.put loc e = t := by
  rw [at?, if_neg hne] at h
  rw [put, putIn_of_lookup h]

theorem put_put_same (t : FileTree) : (t.put loc e).put loc e' = t.put loc e' := by
  rw [put, put, put, putIn_putIn_same]

theorem put_comm (hne : loc ≠ []) (h : t.at? loc ≠ none) (hother : loc ≠ loc') :
    (t.put loc e).put loc' e' = (t.put loc' e').put loc e := by
  rw [at?, if_neg hne] at h
  simp only [put, putIn_comm h hother]

section Entries

variable {α : Type} {place : α → Location} {entry : α → FileEntry}

/-- An entry that is put again later may be left out. -/
theorem foldl_put_overwritten {xs : List α} (hne : loc ≠ []) (h : t.at? loc ≠ none)
    (hin : ∃ x ∈ xs, place x = loc) :
    xs.foldl (fun v x => v.put (place x) (entry x)) (t.put loc e) =
      xs.foldl (fun v x => v.put (place x) (entry x)) t := by
  induction xs generalizing t with
  | nil =>
    obtain ⟨x, hx, -⟩ := hin
    cases hx
  | cons first rest ih =>
    rw [List.foldl_cons, List.foldl_cons]
    by_cases hfirst : place first = loc
    · rw [hfirst, put_put_same]
    · rw [put_comm hne h (Ne.symm hfirst)]
      obtain ⟨x, hx, hplace⟩ := hin
      refine ih ?_ ⟨x, ?_, hplace⟩
      · rwa [at?_put_other t _ (Ne.symm hfirst)]
      · rcases List.mem_cons.1 hx with rfl | hx
        · exact absurd hplace hfirst
        · exact hx

/-- A tree that has the last of the entries at each place is not changed by putting them all, one
after the other. -/
theorem foldl_put_eq_self {xs : List α} (hplaces : ∀ x ∈ xs, place x ≠ [] ∧ t.at? (place x) ≠ none)
    (hlast : ∀ front x back, xs = front ++ x :: back → (∀ y ∈ back, place y ≠ place x) →
      t.at? (place x) = some (entry x)) :
    xs.foldl (fun v x => v.put (place x) (entry x)) t = t := by
  induction xs with
  | nil => rfl
  | cons first rest ih =>
    have hrest : rest.foldl (fun v x => v.put (place x) (entry x)) t = t := by
      refine ih (fun x hx => hplaces x (List.mem_cons_of_mem _ hx)) ?_
      intro front x back hsplit
      exact hlast (first :: front) x back (by rw [hsplit]; rfl)
    obtain ⟨hne, hat⟩ := hplaces first List.mem_cons_self
    rw [List.foldl_cons]
    by_cases hlater : ∃ x ∈ rest, place x = place first
    · rw [foldl_put_overwritten hne hat hlater, hrest]
    · have hnone : ∀ y ∈ rest, place y ≠ place first := fun y hy heq => hlater ⟨y, hy, heq⟩
      rw [put_of_at? hne (hlast [] first rest rfl hnone), hrest]

end Entries

/-! ## Writing a file again -/

/-- A path that is spelled out anew leads to the directory that the path leads to. -/
theorem isDirectory_components {x : Path} {m : Nat} {d : Location}
    (hleads : t.Leads maxLinks (t.start p) p.named m d) (hd : t.at? d = some .directory)
    (hne : p.components ≠ []) (hroot : p.components ≠ [.root])
    (hbegins : p.components <+: x.components) (hu : isUsable x = true) :
    t.isDirectory (.ofComponents p.components) = true := by
  have hbeginning := Path.isBeginning_components p
  have hnamed := Path.named_ofComponents_ne_nil hbeginning hne hroot
  have hfilter : (Path.ofComponents p.components).named.filter (· ≠ [dot]) =
      p.named.filter (· ≠ [dot]) := by
    rw [Path.named_ofComponents hbeginning, Path.spelled_components]
  have hstart : t.start (.ofComponents p.components) = t.start p := by
    rw [start, start, Path.isAbsolute_ofComponents hbeginning, Path.head?_components]
  have hlocate : t.locate true (.ofComponents p.components) = .ok (.present d) := by
    refine locate_of_follow (Path.ne_nil_of_named hnamed)
      (Path.isUsable_beginning hbegins hne hroot hu) ?_
    rw [Path.steps_beginning hbegins hne hroot, hstart]
    exact (hleads.of_filter_dot hfilter).follow_here
  unfold isDirectory directory? entry?
  simp only [hlocate, hd, Option.map_some, Option.isSome_some]

section Written

variable (ht : t.WellFormed) (hno : t.HasNoLinks) (hf : (Path.Component.name f).IsOrdinary)
  (hl : t.locate true (p.join ⟨f⟩) = .ok (.present loc)) {old : ByteArray}
  (hat : t.at? loc = some (.file old))

include ht hno hf hl hat

/-- The directories of a file that stands need not be made. -/
theorem makeAll_enclosing : t.makeAll (enclosing (p.join ⟨f⟩)) = (t, .ok ()) := by
  have hcomponents := Path.components_join_name (p := p) hf
  rw [enclosing_eq hcomponents hf]
  rcases eq_or_ne p.components [] with hnil | hne
  · rw [hnil]
    rfl
  rcases eq_or_ne p.components [.root] with hslash | hroot
  · rw [hslash]
    rfl
  obtain ⟨m, d, hleads, rfl⟩ := hno.leads_of_locate (Path.steps_join_name p hf) hf hl
  rw [start_join t (Path.isAbsolute_of_not_mem (p := ⟨f⟩) hf.2.2.2)] at hleads
  have hstanding : t.isDirectory (.ofComponents p.components) = true :=
    isDirectory_components hleads (ht.within d f _ hat) hne hroot ⟨_, hcomponents.symm⟩
      (locate_ok hl).2.1
  have hnamed := Path.named_ofComponents_ne_nil (Path.isBeginning_components p) hne hroot
  obtain ⟨cs, c, hcs⟩ := (List.eq_nil_or_concat p.components).resolve_left hne
  rw [List.concat_eq_append] at hcs
  rw [hcs, descents_concat (hcs ▸ hroot), ← hcs]
  exact makeAll_standing hstanding hnamed _

/-- A file that stands is written in its place, and nothing else is done. -/
theorem writeWithDirectories_again (content : ByteArray) :
    t.writeWithDirectories (p.join ⟨f⟩) content = (t.put loc (.file content), .ok ()) := by
  have hwrite : t.write (p.join ⟨f⟩) content = .ok (t.put loc (.file content)) := by
    unfold write
    simp only [hl, bind, Except.bind, hat]
    rfl
  rw [writeWithDirectories_eq, makeAll_enclosing ht hno hf hl hat]
  dsimp only
  unfold writeWithDirectories.finish
  rw [hwrite]

end Written

end FileTree

namespace Generation

open FileTree

variable {t u v : FileTree} {scratch scratch' : Scratch} {settings : Settings} {request : Request}
  {template : Bom.Template} {style : Bom.Style} {output : Path} {ds : List Distribution}

/-! ## The batch again -/

theorem adds_writeManifest (h : Adds (Text.bytes Bom.fileName) t v) (hno : t.HasNoLinks)
    (d : Distribution) :
    Adds (Text.bytes Bom.fileName) t (writeManifest template style output v d).1 := by
  have hadds : Adds (Text.bytes Bom.fileName) t
      (v.writeWithDirectories (Bom.path output d) (template.fill style d).toUTF8).1 :=
    h.writeWithDirectories hno (Path.steps_join_name _ Bom.ordinary_fileName) Bom.ordinary_fileName _
  unfold writeManifest
  dsimp only
  cases hw : v.writeWithDirectories (Bom.path output d) (template.fill style d).toUTF8 with
  | mk w outcome =>
    rw [hw] at hadds
    cases outcome <;> exact hadds

/-- A batch of manifests adds manifests and directories, and nothing else. -/
theorem adds_inTurn (hno : t.HasNoLinks) (ds : List Distribution) :
    Adds (Text.bytes Bom.fileName) t (inTurn (writeManifest template style output) ds t).1 :=
  inTurn_preserves (fun _ d _ hv => adds_writeManifest hv hno d) (.refl _ t)

def manifestPlace (u : FileTree) (output : Path) (d : Distribution) : Location :=
  match u.locate true (Bom.path output d) with
  | .ok place => place.location
  | .error _ => []

theorem manifestPlace_eq {d : Distribution} {loc : Location}
    (h : u.locate true (Bom.path output d) = .ok (.present loc)) :
    manifestPlace u output d = loc := by
  unfold manifestPlace
  rw [h]
  rfl

/-- The manifest of a distribution that stands is put in its place. -/
theorem writeManifest_again (template : Bom.Template) (style : Bom.Style) (hno : u.HasNoLinks)
    (hv : v.Rooted) (h : Adds (Text.bytes Bom.fileName) u v) {d : Distribution} {loc : Location}
    {old : ByteArray}
    (hl : u.locate true (Bom.path output d) = .ok (.present loc))
    (hat : u.at? loc = some (.file old)) :
    (writeManifest template style output v d).1 =
        v.put (manifestPlace u output d) (.file (template.fill style d).toUTF8) ∧
      (writeManifest template style output v d).2.outcome = .ok (Bom.path output d) := by
  obtain ⟨content, hfile⟩ := h.grows.file hat
  have hwrite := writeWithDirectories_again hv.toWellFormed (h.hasNoLinks hno) Bom.ordinary_fileName
    (locate_grows hl h.grows) hfile (template.fill style d).toUTF8
  have hpath : v.writeWithDirectories (Bom.path output d) (template.fill style d).toUTF8 =
      (v.put loc (.file (template.fill style d).toUTF8), .ok ()) := hwrite
  rw [manifestPlace_eq hl]
  unfold writeManifest
  dsimp only
  rw [hpath]
  exact ⟨rfl, rfl⟩

/-- Manifests that all stand are put in their places one after the other. -/
theorem inTurn_again (template : Bom.Template) (style : Bom.Style) (hno : u.HasNoLinks)
    (hv : v.Rooted) (h : Adds (Text.bytes Bom.fileName) u v)
    (hstand : ∀ d ∈ ds, ∃ loc old, u.locate true (Bom.path output d) = .ok (.present loc) ∧
      u.at? loc = some (.file old)) :
    (inTurn (writeManifest template style output) ds v).1 =
        ds.foldl (fun w d => w.put (manifestPlace u output d)
          (.file (template.fill style d).toUTF8)) v ∧
      (inTurn (writeManifest template style output) ds v).2.outcome =
        .ok (ds.map (Bom.path output)) := by
  induction ds generalizing v with
  | nil => exact ⟨rfl, rfl⟩
  | cons d rest ih =>
    obtain ⟨hfirst, hrest⟩ := List.forall_mem_cons.1 hstand
    obtain ⟨loc, old, hl, hat⟩ := hfirst
    obtain ⟨htree, hout⟩ := writeManifest_again template style hno hv h hl hat
    have hnext : (writeManifest template style output v d).1.Rooted := by
      have hone := rooted_inTurn hv template style output [d]
      rwa [(inTurn_cons_ok hout).1] at hone
    obtain ⟨htrees, houts⟩ := ih hnext (adds_writeManifest h hno d) hrest
    rw [(inTurn_cons_ok hout).1, (inTurn_cons_ok hout).2, htrees, houts, List.foldl_cons, htree]
    exact ⟨rfl, rfl⟩

/-- A batch that is written again leaves everything as it is. -/
theorem Written.again (h : Written t u template style output ds) (hu : u.Rooted)
    (hno : u.HasNoLinks) :
    (inTurn (writeManifest template style output) ds u).1 = u ∧
      (inTurn (writeManifest template style output) ds u).2.outcome =
        .ok (ds.map (Bom.path output)) := by
  have hstand : ∀ d ∈ ds, ∃ loc old, u.locate true (Bom.path output d) = .ok (.present loc) ∧
      u.at? loc = some (.file old) := by
    intro d hd
    obtain ⟨loc, hl⟩ := h.located d hd
    obtain ⟨last, hlast⟩ := exists_last (List.ne_nil_of_mem (mem_lyingAt.2 ⟨hd, hl⟩))
    exact ⟨loc, _, hl, h.last loc last hlast⟩
  obtain ⟨htree, hout⟩ := inTurn_again template style hno hu (.refl _ u) hstand
  refine ⟨?_, hout⟩
  rw [htree]
  refine foldl_put_eq_self (fun d hd => ?_) (fun front d back hsplit hlater => ?_)
  · obtain ⟨loc, old, hl, hat⟩ := hstand d hd
    rw [manifestPlace_eq hl]
    refine ⟨?_, by simp [hat]⟩
    rintro rfl
    rw [at?_root] at hat
    cases hat
  · -- no later manifest lies there, so the text of this one does
    obtain ⟨loc, old, hl, -⟩ := hstand d (by simp [hsplit])
    rw [manifestPlace_eq hl]
    refine h.last loc d ?_
    have hback : lyingAt u output loc back = [] := by
      refine List.filter_eq_nil_iff.2 fun e he => ?_
      rw [decide_eq_true_eq]
      intro hle
      exact hlater e he (by rw [manifestPlace_eq hle, manifestPlace_eq hl])
    rw [hsplit]
    unfold lyingAt at hback ⊢
    rw [List.filter_append, List.filter_cons_of_pos (by simpa using hl), hback]
    exact List.getLast?_concat

/-! ## The plan again -/

theorem contents_ok_iff {place : Option Path} {path : Path} {files : List Path} :
    (contents t place path).2 = .ok files ↔ ∃ p v, place = some p ∧
      t.withTemporary? p (fun inside => Archive.unpackFile inside path p) =
        some (v, .ok files) := by
  unfold contents
  cases place with
  | none => simp
  | some p =>
    simp only [Option.bind_some, Option.some.injEq, exists_and_left, exists_eq_left']
    cases t.withTemporary? p fun inside => Archive.unpackFile inside path p with
    | none => simp
    | some result =>
      obtain ⟨v, outcome⟩ := result
      cases outcome <;> simp [Except.mapError]

theorem usable_of_contents {place : Option Path} {path : Path} {files : List Path}
    (h : (contents t place path).2 = .ok files) : isUsable path = true := by
  obtain ⟨p, v, -, hw⟩ := contents_ok_iff.1 h
  obtain ⟨d, -, hwork⟩ := Option.map_eq_some_iff.1 hw
  cases hu : Archive.unpackFile (t.put d .directory) path p with
  | mk after outcome =>
    dsimp only at hwork
    rw [hu] at hwork
    cases hwork
    exact Archive.usable_of_unpackFile hu

section Again

variable (ht : t.WellFormed) (hu : u.WellFormed) (hno : t.HasNoLinks)
  (h : Adds (Text.bytes Bom.fileName) t u)
  (hselect : Selection.isArchive settings Bom.fileName = false)

include ht hno h hselect

/-- A selected archive is unpacked to the same files as before. -/
theorem contents_again {location : Location} {archive : String} {place place' : Option Path}
    {files : List Path} (hd : t.directory? request.archives = some location)
    (ha : Selection.IsSelected t location settings archive)
    (hf : (contents t place (request.archives.join (.ofString archive))).2 = .ok files)
    (hplace : ∀ p, place = some p → ∃ p', place' = some p' ∧ (u.vacancy? p').isSome = true ∧
      p'.spelling.length ≤ p.spelling.length) :
    (contents u place' (request.archives.join (.ofString archive))).2 = .ok files := by
  have husable := usable_of_contents hf
  -- the archive is a file of another name than the manifests, so it stands there still
  obtain ⟨e, he⟩ := Option.ne_none_iff_exists'.1 ha.listed
  have hname := ht.ordinary _ _ _ he
  obtain ⟨loc, content, hchild⟩ := ha.file
  rw [hno.child? hname] at hchild
  split at hchild
  · cases hchild
  rename_i hlen
  obtain ⟨e', hat, hpair⟩ := Option.map_eq_some_iff.1 hchild
  cases hpair
  have hother (above : Location) :
      location ++ [Text.bytes archive] ≠ above ++ [Text.bytes Bom.fileName] := by
    intro heq
    have hsame := Text.bytes_injective (List.cons.inj (List.append_inj' heq rfl).2).1
    have hin := Selection.isArchive_iff.2 ⟨ha.begins, ha.ends⟩
    rw [hsame, hselect] at hin
    cases hin
  have hat' := h.entry_of_some hat hother
  have hl := locate_join_name hd hname (Nat.le_of_not_lt hlen) hat husable
  have hl' := locate_join_name (h.grows.directory? hd) hname (Nat.le_of_not_lt hlen) hat' husable
  obtain ⟨p, v, hp, hw⟩ := contents_ok_iff.1 hf
  obtain ⟨p', hp', hvacant, hlength⟩ := hplace p hp
  obtain ⟨w, hw'⟩ := Archive.unpackFile_elsewhere hl hat hl' hat' hvacant hlength hw
  exact contents_ok_iff.2 ⟨p', w, hp', hw'⟩

include hu

/-- A run finds the archives, the template and the modules that it found before. -/
theorem setup_again {s : Setup} (htemplate : request.template = none)
    (hext : ¬Path.HasExtension (Text.bytes Bom.fileName) (Text.bytes settings.binaryExtension))
    (hs : (setup t settings request).outcome = .ok s) :
    ∃ s', (setup u settings request).outcome = .ok s' ∧ s'.archives = s.archives ∧
      s'.template = s.template ∧ ∀ archive files,
        s'.mapping.holding archive files = s.mapping.holding archive files := by
  obtain ⟨hsettings, harchives, hindex⟩ := setup_ok hs
  obtain ⟨location, hd, -⟩ := archives_ok harchives
  have hbuiltin (v : FileTree) : Generation.template v request.template = .ok .builtin := by
    rw [htemplate]
    rfl
  have hparts := setup_of_parts (by rw [isDirectory, hd]; rfl) harchives (hbuiltin t) hindex
  rw [hs] at hparts
  have hd' := h.grows.directory? hd
  have harchives' : (Selection.archives u request.archives settings).outcome = .ok s.archives := by
    have hnone (name : String) (hname : Text.bytes name = Text.bytes Bom.fileName) :
        Selection.isArchive settings name = false := by
      rw [Text.bytes_injective hname, hselect]
    rw [Selection.archives_outcome hd']
    rw [Selection.archives_outcome hd] at harchives
    rwa [Selection.archiveNames_adds h hno hnone ht hu]
  obtain ⟨other, hindex', hroot, hfiles⟩ := ArtifactIndex.survey_adds h hno ht hu hext hindex
  refine ⟨_, setup_of_parts (by rw [isDirectory, hd']; rfl) harchives' (hbuiltin u) hindex', rfl,
    ?_, ?_⟩
  · rw [Except.ok.inj hparts]
  · exact Mapping.holding_congr hsettings.symm (ArtifactIndex.identify?_congr hroot hfiles)

theorem plan_again {p : Plan} (htemplate : request.template = none)
    (hext : ¬Path.HasExtension (Text.bytes Bom.fileName) (Text.bytes settings.binaryExtension))
    (hp : (plan t scratch settings request).2.outcome = .ok p)
    (hscratch : ∀ d ∈ p.distributions, ∀ place, scratch d.archive = some place →
      ∃ place', scratch' d.archive = some place' ∧ (u.vacancy? place').isSome = true ∧
        place'.spelling.length ≤ place.spelling.length) :
    (plan u scratch' settings request).2.outcome = .ok p := by
  obtain ⟨s, hs, hsame, hcomplete, hwork⟩ := plan_ok hp
  obtain ⟨s', hs', harchives, htemplates, hholding⟩ :=
    setup_again ht hu hno h hselect htemplate hext hs
  obtain ⟨location, hd, hselected⟩ := archives_ok (setup_ok hs).2.1
  have hwork' : List.Forall₂ (fun archive d =>
      (distribution scratch' s'.mapping request.archives u archive).2.outcome = .ok d)
      s'.archives p.distributions := by
    rw [harchives]
    refine List.forall₂_iff_zip.2 ⟨hwork.length_eq, fun {archive d} hz => ?_⟩
    obtain ⟨hin, hind⟩ := List.of_mem_zip hz
    obtain ⟨files, hfiles, rfl⟩ := distribution_ok (List.forall₂_zip hwork hz)
    have hin' : Selection.IsSelected t location settings archive := by
      rw [hselected] at hin
      exact Selection.mem_archiveNames.1 hin
    have hbefore : (contents t (scratch archive)
        (request.archives.join (.ofString archive))).2 = .ok files := by rw [hfiles]
    have hafter : (contents u (scratch' archive)
        (request.archives.join (.ofString archive))).2 = .ok files :=
      contents_again ht hno h hselect hd hin' hbefore (hscratch _ hind)
    rw [distribution_outcome, hafter]
    exact congrArg Except.ok (hholding archive files)
  rw [plan_outcome hs',
    (inTurn_ok_iff fun a _ => distribution_tree s'.mapping request.archives u a).2 hwork']
  show gate s'.template p.distributions = .ok p
  unfold gate
  rw [Distribution.shortfalls_eq_nil.2 hcomplete, htemplates, ← hsame]

end Again

/-- A second run with the same request succeeds with the same report and leaves the tree exactly as
the first one left it, wherever the manifests are written. This is said of trees without links, of
the default settings and of the built-in template. The second run makes its temporary directories
where nothing stands, at paths that are not longer than those of the first run. -/
theorem runIn_again {summary : Summary} (ht : t.Rooted)
    (hno : ∀ loc target, t.at? loc ≠ some (.link target)) (htemplate : request.template = none)
    (hd : request.dryRun = false) (h : (runIn t scratch {} request).2.outcome = .ok summary)
    (hscratch : ∀ d ∈ summary.distributions, ∀ place, scratch d.archive = some place →
      ∃ place', scratch' d.archive = some place' ∧
        ((runIn t scratch {} request).1.vacancy? place').isSome = true ∧
        place'.spelling.length ≤ place.spelling.length) :
    (runIn (runIn t scratch {} request).1 scratch' {} request).2.outcome = .ok summary ∧
      (runIn (runIn t scratch {} request).1 scratch' {} request).1 =
        (runIn t scratch {} request).1 := by
  obtain ⟨p, hp, hx⟩ := runIn_ok h
  obtain ⟨rfl, -⟩ := runIn_effect_of_plan ht hp hd h
  obtain ⟨-, -, hbatch⟩ := execute_ok hd hx
  rw [(runIn_of_plan_ok hp).1] at hscratch ⊢
  generalize hu : (execute t request p).1 = u at *
  have hinTurn := (execute_real (t := t) (p := p) hd).1
  rw [hu] at hinTurn
  have hadds : Adds (Text.bytes Bom.fileName) t u := hinTurn ▸ adds_inTurn hno p.distributions
  have hrooted : u.Rooted := hinTurn ▸ rooted_inTurn ht _ _ _ _
  have hselect : Selection.isArchive {} Bom.fileName = false := by decide
  have hext : ¬Path.HasExtension (Text.bytes Bom.fileName) (Text.bytes "jar") := by
    rw [← Path.extensionOf?_eq_some_iff]
    decide
  have hplan : (plan u scratch' {} request).2.outcome = .ok p :=
    plan_again ht.toWellFormed hrooted.toWellFormed hno hadds hselect htemplate hext hp hscratch
  obtain ⟨hsame, hpaths⟩ := hbatch.again hrooted (hadds.hasNoLinks hno)
  obtain ⟨htree, hout⟩ := runIn_of_plan_ok hplan
  obtain ⟨hexecuted, hsummary⟩ := execute_real (t := u) (p := p) hd
  rw [htree, hout, hexecuted, hsummary, hsame, hpaths]
  exact ⟨rfl, rfl⟩

/-- The manifests are written among the archives. -/
def besideRequest : Request := { plainRequest with output := .ofString "dists" }

def firstScratch : Scratch := fun _ => some (.ofString "/tmp.1")

def secondScratch : Scratch := fun _ => some (.ofString "/tmp.2")

theorem known_again :
    ∃ summary, (runIn known firstScratch {} besideRequest).2.outcome = .ok summary ∧
      (runIn (runIn known firstScratch {} besideRequest).1 secondScratch {}
        besideRequest).2.outcome = .ok summary ∧
      (runIn (runIn known firstScratch {} besideRequest).1 secondScratch {} besideRequest).1 =
        (runIn known firstScratch {} besideRequest).1 := by
  obtain ⟨summary, hok⟩ := exists_of_isOk
    (x := (runIn known firstScratch {} besideRequest).2.outcome) (by decide +kernel)
  have ht : known.Rooted := ⟨.of_entries (by decide +kernel), rfl⟩
  have hno := FileTree.not_link_of_entries (t := known) (by simp [known, treeOf])
  have hvacant : ((runIn known firstScratch {} besideRequest).1.vacancy?
      (.ofString "/tmp.2")).isSome = true := by decide +kernel
  refine ⟨summary, hok, runIn_again ht hno rfl rfl hok fun d _ place hplace => ?_⟩
  cases hplace
  exact ⟨_, rfl, hvacant, by decide⟩

end Generation
end BillOfMaterials
