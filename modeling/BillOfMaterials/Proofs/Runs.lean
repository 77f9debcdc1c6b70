import BillOfMaterials.Generation
import BillOfMaterials.Proofs.Outcomes
import BillOfMaterials.Proofs.Temporary

/-!
# What a run does to the tree

The first part of a run leaves the tree as it was, whatever its outcome: every archive is unpacked
in a temporary directory, and nothing else is put anywhere. So each archive is met in the tree that
the run began with. The second part can only fail by a manifest that cannot be written. Nothing is
said here of what a run leaves behind that fails in that way.
-/
namespace BillOfMaterials.Generation

variable {t : FileTree} {scratch : Scratch} {settings : Settings} {request : Request}

/-! ## Work in turn -/

section InTurn

variable {α β : Type} {work : FileTree → α → FileTree × Logged Failure β}

theorem inTurn_cons_error {a : α} {rest : List α} {failure : Failure}
    (h : (work t a).2.outcome = .error failure) :
    (inTurn work (a :: rest) t).1 = (work t a).1 ∧
      (inTurn work (a :: rest) t).2.outcome = .error failure := by
  simp only [inTurn, h, and_self]

theorem inTurn_cons_ok {a : α} {b : β} {rest : List α} (h : (work t a).2.outcome = .ok b) :
    (inTurn work (a :: rest) t).1 = (inTurn work rest (work t a).1).1 ∧
      (inTurn work (a :: rest) t).2.outcome =
        (inTurn work rest (work t a).1).2.outcome.map (b :: ·) := by
  simp only [inTurn, h, and_self]

/-- What every piece of work preserves holds after all the work that was done, also when it ended at
a failure. -/
theorem inTurn_preserves {P : FileTree → Prop} {xs : List α}
    (step : ∀ u, ∀ a ∈ xs, P u → P (work u a).1) (h : P t) : P (inTurn work xs t).1 := by
  induction xs generalizing t with
  | nil => exact h
  | cons a rest ih =>
    have hfirst : P (work t a).1 := step t a List.mem_cons_self h
    cases ho : (work t a).2.outcome with
    | error failure =>
      rw [(inTurn_cons_error ho).1]
      exact hfirst
    | ok b =>
      rw [(inTurn_cons_ok ho).1]
      exact ih (fun u x hx => step u x (List.mem_cons_of_mem _ hx)) hfirst

/-- Work in turn fails at the first piece that does, on the tree that the pieces before it left. -/
theorem inTurn_error_iff {xs : List α} {failure : Failure} :
    (inTurn work xs t).2.outcome = .error failure ↔
      ∃ before a after, xs = before ++ a :: after ∧
        (∃ bs, (inTurn work before t).2.outcome = .ok bs) ∧
        (work (inTurn work before t).1 a).2.outcome = .error failure := by
  induction xs generalizing t with
  | nil =>
    constructor
    · intro h
      cases h
    · rintro ⟨before, a, after, hxs, -⟩
      cases before <;> cases hxs
  | cons x rest ih =>
    cases ho : (work t x).2.outcome with
    | error other =>
      rw [(inTurn_cons_error ho).2]
      constructor
      · intro h
        cases h
        exact ⟨[], x, rest, rfl, ⟨[], rfl⟩, ho⟩
      · rintro ⟨_ | ⟨y, before⟩, a, after, hxs, ⟨bs, hbs⟩, ha⟩
        · cases hxs
          rw [Except.error.inj (ho.symm.trans ha)]
        · cases hxs
          rw [(inTurn_cons_error ho).2] at hbs
          cases hbs
    | ok b =>
      rw [(inTurn_cons_ok ho).2, map_eq_error_iff, ih]
      constructor
      · rintro ⟨before, a, after, rfl, ⟨bs, hbs⟩, ha⟩
        refine ⟨x :: before, a, after, rfl, ⟨b :: bs, ?_⟩, ?_⟩
        · rw [(inTurn_cons_ok ho).2, hbs]
          rfl
        · rw [(inTurn_cons_ok ho).1]
          exact ha
      · rintro ⟨_ | ⟨y, before⟩, a, after, hxs, ⟨bs, hbs⟩, ha⟩
        · cases hxs
          rw [show (inTurn work [] t).1 = t from rfl, ho] at ha
          cases ha
        · cases hxs
          rw [(inTurn_cons_ok ho).2] at hbs
          rw [(inTurn_cons_ok ho).1] at ha
          obtain ⟨cs, hcs, -⟩ := map_eq_ok_iff.1 hbs
          exact ⟨before, a, after, rfl, ⟨cs, hcs⟩, ha⟩

/-- A failure of the whole is a failure of one piece of work. -/
theorem inTurn_error {xs : List α} {failure : Failure}
    (h : (inTurn work xs t).2.outcome = .error failure) :
    ∃ u, ∃ a ∈ xs, (work u a).2.outcome = .error failure := by
  obtain ⟨before, a, after, rfl, -, ha⟩ := inTurn_error_iff.1 h
  exact ⟨_, a, List.mem_append_right before List.mem_cons_self, ha⟩

/-- Where no piece of work changes the tree, all of them are done on the tree at the beginning. -/
theorem inTurn_ok_iff {xs : List α} {bs : List β} (ht : ∀ a ∈ xs, (work t a).1 = t) :
    (inTurn work xs t).2.outcome = .ok bs ↔
      List.Forall₂ (fun a b => (work t a).2.outcome = .ok b) xs bs := by
  induction xs generalizing bs with
  | nil =>
    constructor
    · intro h
      cases h
      exact .nil
    · intro h
      cases h
      rfl
  | cons a rest ih =>
    have ih' := fun {bs} => @ih bs fun x hx => ht x (List.mem_cons_of_mem _ hx)
    have hsame : (work t a).1 = t := ht a List.mem_cons_self
    cases ho : (work t a).2.outcome with
    | error failure =>
      rw [(inTurn_cons_error ho).2]
      constructor
      · intro h
        cases h
      · rintro (- | ⟨hb, -⟩)
        rw [ho] at hb
        cases hb
    | ok b =>
      rw [(inTurn_cons_ok ho).2, hsame]
      constructor
      · intro h
        cases hr : (inTurn work rest t).2.outcome with
        | error failure => rw [hr] at h; cases h
        | ok others =>
          rw [hr] at h
          cases h
          exact .cons ho (ih'.1 hr)
      · rintro (- | ⟨hb, hrest⟩)
        rw [ho] at hb
        cases hb
        rw [ih'.2 hrest]
        rfl

end InTurn

/-! ## The first part -/

theorem contents_tree (t : FileTree) (place : Option Path) (path : Path) :
    (contents t place path).1 = t := by
  unfold contents
  cases hu : place.bind fun place =>
      t.withTemporary? place fun inside => Archive.unpackFile inside path place with
  | none => rfl
  | some result =>
    obtain ⟨t', files⟩ := result
    obtain ⟨p, -, hw⟩ := Option.bind_eq_some_iff.1 hu
    have hsame : t' = t :=
      FileTree.withTemporary?_tree hw fun hl hp =>
        (Archive.unpackingKeeps_private hl).unpackFile hp path
    exact hsame

theorem distribution_tree (m : Mapping) (directory : Path) (t : FileTree) (archive : String) :
    (distribution scratch m directory t archive).1 = t :=
  contents_tree t (scratch archive) (directory.join (.ofString archive))

/-- The distribution of an archive is made of the files that unpacking it gave. -/
theorem distribution_outcome (m : Mapping) (directory : Path) (t : FileTree) (archive : String) :
    (distribution scratch m directory t archive).2.outcome =
      (contents t (scratch archive) (directory.join (.ofString archive))).2.map fun files =>
        m.distribution archive (Binary.names m.settings.binaryExtension files) := by
  unfold distribution
  dsimp only
  generalize contents t (scratch archive) (directory.join (.ofString archive)) = found
  obtain ⟨t', files⟩ := found
  cases files with
  | error failure => rfl
  | ok files => rfl

theorem plan_tree : (plan t scratch settings request).1 = t := by
  unfold plan
  dsimp only
  cases (setup t settings request).outcome with
  | error failure => rfl
  | ok s =>
    have hstep : ∀ u, ∀ a ∈ s.archives, u = t →
        (distribution scratch s.mapping request.archives u a).1 = t := by
      intro u a _ hu
      rw [hu, distribution_tree]
    exact inTurn_preserves (P := fun u => u = t) hstep rfl

theorem plan_outcome {s : Setup} (h : (setup t settings request).outcome = .ok s) :
    (plan t scratch settings request).2.outcome =
      (inTurn (distribution scratch s.mapping request.archives) s.archives t).2.outcome >>=
        gate s.template := by
  unfold plan
  simp only [h, Logged.outcome_bind]
  rfl

/-! ## Both parts -/

theorem runIn_of_plan_error {failure : Failure}
    (h : (plan t scratch settings request).2.outcome = .error failure) :
    (runIn t scratch settings request).1 = t ∧
      (runIn t scratch settings request).2.outcome = .error failure := by
  have htree : (plan t scratch settings request).1 = t := plan_tree
  unfold runIn
  simp only [h, htree, and_self]

theorem runIn_of_plan_ok {p : Plan} (h : (plan t scratch settings request).2.outcome = .ok p) :
    (runIn t scratch settings request).1 = (execute t request p).1 ∧
      (runIn t scratch settings request).2.outcome = (execute t request p).2.outcome := by
  have htree : (plan t scratch settings request).1 = t := plan_tree
  unfold runIn
  simp only [h, htree, and_self]

theorem writeManifest_error {template : Bom.Template} {style : Bom.Style} {output : Path}
    {d : Distribution} {failure : Failure}
    (h : (writeManifest template style output t d).2.outcome = .error failure) :
    failure = .unwrittenManifest (Bom.path output d) := by
  unfold writeManifest at h
  dsimp only at h
  split at h
  · cases h
  · cases h
    rfl

theorem execute_dry {p : Plan} (h : request.dryRun = true) :
    (execute t request p).1 = t ∧
      (execute t request p).2.outcome = .ok ⟨p.distributions, [], true⟩ := by
  unfold execute
  rw [if_pos h]
  exact ⟨rfl, rfl⟩

/-- The second part writes the manifests in turn, unless it is told to write nothing. -/
theorem execute_real {p : Plan} (h : request.dryRun = false) :
    (execute t request p).1 = (inTurn (writeManifest p.template request.style request.output)
        p.distributions t).1 ∧
      (execute t request p).2.outcome = (inTurn (writeManifest p.template request.style
        request.output) p.distributions t).2.outcome.map fun written =>
          ⟨p.distributions, written, false⟩ := by
  unfold execute
  rw [if_neg (by simp [h])]
  refine ⟨rfl, ?_⟩
  rw [Logged.outcome_bind]
  rfl

/-- The second part can only fail by a manifest that cannot be written. -/
theorem execute_error {p : Plan} {failure : Failure}
    (h : (execute t request p).2.outcome = .error failure) :
    request.dryRun = false ∧ ∃ path, failure = .unwrittenManifest path := by
  by_cases hd : request.dryRun = true
  · rw [(execute_dry hd).2] at h
    cases h
  · have hreal : request.dryRun = false := by simpa using hd
    refine ⟨hreal, ?_⟩
    rw [(execute_real hreal).2] at h
    cases hw : (inTurn (writeManifest p.template request.style request.output) p.distributions
        t).2.outcome with
    | ok written =>
      rw [hw] at h
      cases h
    | error other =>
      rw [hw] at h
      cases h
      obtain ⟨u, d, -, hu⟩ := inTurn_error hw
      exact ⟨_, writeManifest_error hu⟩

/-- A run that is told to write nothing, or that fails by anything but a manifest that cannot be
written, leaves the tree as it was: the same entries in the same order. -/
theorem runIn_leaves_tree
    (h : request.dryRun = true ∨ ∃ failure,
      (runIn t scratch settings request).2.outcome = .error failure ∧
        ∀ path, failure ≠ .unwrittenManifest path) :
    (runIn t scratch settings request).1 = t := by
  cases hp : (plan t scratch settings request).2.outcome with
  | error failure => exact (runIn_of_plan_error hp).1
  | ok p =>
    obtain ⟨htree, hout⟩ := runIn_of_plan_ok hp
    rw [htree]
    rcases h with hd | ⟨failure, hf, hne⟩
    · exact (execute_dry hd).1
    · rw [hout] at hf
      obtain ⟨-, path, he⟩ := execute_error hf
      exact absurd he (hne path)

/-! ## Small runs -/

/-- An archive of empty files with the given names. -/
def archiveOf (names : List String) : ByteArray :=
  let short (n : Nat) : Bytes := [UInt8.ofNat n, UInt8.ofNat (n / 256)]
  let long (n : Nat) : Bytes := short n ++ [0, 0]
  let length (s : String) : Bytes := short (Text.bytes s).length
  let header (s : String) : Bytes :=
    [0x50, 0x4B, 3, 4] ++ List.replicate 22 0 ++ length s ++ [0, 0] ++ Text.bytes s
  let record (s : String) (offset : Nat) : Bytes :=
    [0x50, 0x4B, 1, 2] ++ List.replicate 24 0 ++ length s ++ List.replicate 12 0 ++ long offset ++
      Text.bytes s
  let add (soFar : Bytes × Bytes) (s : String) : Bytes × Bytes :=
    (soFar.1 ++ header s, soFar.2 ++ record s soFar.1.length)
  let (files, directory) := names.foldl add ([], [])
  ⟨(files ++ directory ++ [0x50, 0x4B, 5, 6, 0, 0, 0, 0] ++ short names.length ++
    short names.length ++ long directory.length ++ long files.length ++ [0, 0]).toArray⟩

/-- A tree with archives in one directory, beside an empty repository. -/
def treeOf (archives : List (String × ByteArray)) : FileTree where
  entries := [([Text.bytes "dists"], .directory), ([Text.bytes "m2"], .directory)] ++
    archives.map fun (name, content) => ([Text.bytes "dists", Text.bytes name], .file content)

def plainRequest : Request where
  archives := .ofString "dists"
  repository := .ofString "m2"
  output := .ofString "boms"

theorem error_of_map_error {x : Except Failure Summary} {failure : Failure}
    (h : x.map (fun _ => ()) = .error failure) : x = .error failure := by
  cases x with
  | ok summary => cases h
  | error other =>
    cases h
    rfl

theorem exists_of_isOk {ε α : Type} {x : Except ε α} (h : x.isOk = true) : ∃ a, x = .ok a := by
  cases x with
  | ok a => exact ⟨a, rfl⟩
  | error e => cases h

/-- The second entry of the archive leads out of the directory after the first was unpacked. -/
def escaping : FileTree :=
  treeOf [("apache-tomee-plus-8.0.6.zip", archiveOf ["ecj-3.jar", "../ecj-3.jar"])]

theorem escaping_leaves_tree :
    (run escaping true {} plainRequest).2.outcome =
        .error (.archive (.ofString "dists/apache-tomee-plus-8.0.6.zip") (.escape "../ecj-3.jar")) ∧
      (run escaping true {} plainRequest).1 = escaping := by
  have hout : (run escaping true {} plainRequest).2.outcome = .error
      (.archive (.ofString "dists/apache-tomee-plus-8.0.6.zip") (.escape "../ecj-3.jar")) :=
    error_of_map_error (by decide +kernel)
  exact ⟨hout, runIn_leaves_tree (.inr ⟨_, hout, fun path => by simp⟩)⟩

end BillOfMaterials.Generation
