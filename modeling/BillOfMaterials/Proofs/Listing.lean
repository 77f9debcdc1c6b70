import BillOfMaterials.Proofs.Encoding
import BillOfMaterials.Proofs.Report
import BillOfMaterials.Table
import BillOfMaterials.Proofs.Walking
import Mathlib.Data.List.Nodup

/-!
# The order of directory listings

Two trees may hold the same and list the children of their directories in different orders. A run
tells them apart nowhere: names are sorted before they are used, and all else is looked up. So it
gives one answer and one log on both, and leaves trees that again differ in their listings alone.
-/
namespace BillOfMaterials

namespace FileTree

variable {t u : FileTree} {p : Path} {loc : Location} {e : FileEntry}

/-- Two trees that hold the same, and whose directories list the same children in one order or
another. -/
structure Relisted (t u : FileTree) : Prop extends Alike t u where
  children : ∀ directory, (u.children directory).Perm (t.children directory)

/-! ## Looking things up -/

theorem Alike.locate (h : t.Alike u) (final : Bool) (p : Path) :
    u.locate final p = t.locate final p := by
  simp only [FileTree.locate, FileTree.start, h.follow, h.start]

theorem Alike.read (h : t.Alike u) (p : Path) : u.read p = t.read p := by
  simp only [FileTree.read, h.locate, h.entry]

theorem Alike.readText? (h : t.Alike u) (p : Path) : u.readText? p = t.readText? p := by
  simp only [FileTree.readText?, h.read]

/-- Whether anything stands at a location or below it shows at the locations one by one. -/
theorem any_below_iff {d : Location} (hd : d ≠ []) :
    (t.entries.any fun entry => d.isPrefixOf entry.1) = true ↔
      ∃ loc, d <+: loc ∧ t.at? loc ≠ none := by
  have hat {loc : Location} (hloc : d <+: loc) : t.at? loc = t.entries.lookup loc := by
    refine if_neg ?_
    rintro rfl
    exact hd (List.prefix_nil.1 hloc)
  rw [List.any_eq_true]
  constructor
  · rintro ⟨entry, hmem, hbelow⟩
    have hprefix := List.isPrefixOf_iff_prefix.1 hbelow
    refine ⟨entry.1, hprefix, ?_⟩
    rw [hat hprefix]
    intro hnone
    exact absurd (List.lookup_eq_none_iff.1 hnone entry hmem) (by simp)
  · rintro ⟨loc, hprefix, hsome⟩
    rw [hat hprefix] at hsome
    obtain ⟨e, he⟩ := Option.ne_none_iff_exists'.1 hsome
    exact ⟨(loc, e), mem_of_lookup he, List.isPrefixOf_iff_prefix.2 hprefix⟩

theorem Alike.vacancy? (h : t.Alike u) (p : Path) : u.vacancy? p = t.vacancy? p := by
  have hany (d : Location) (name : Bytes) :
      (u.entries.any fun entry => (d ++ [name]).isPrefixOf entry.1) =
        t.entries.any fun entry => (d ++ [name]).isPrefixOf entry.1 := by
    rw [Bool.eq_iff_iff, any_below_iff (by simp), any_below_iff (by simp)]
    simp only [h.entry]
  simp only [FileTree.vacancy?, h.locate, hany]

namespace Relisted

theorem sortedChildren (h : t.Relisted u) (directory : Location) :
    u.sortedChildren directory = t.sortedChildren directory := by
  have hu : SortedBy compare (u.children directory) (u.sortedChildren directory) := .mergeSort _
  have ht : SortedBy compare (t.children directory) (t.sortedChildren directory) := .mergeSort _
  have hkey : ∀ a b : Bytes, compare a b = compare (id a) (id b) := fun _ _ => rfl
  simpa using hu.map_key hkey ht (h.children directory)

theorem seen (h : t.Relisted u) {inside : List Location} {loc : Location} {names : List Bytes}
    {name : Bytes} (hwalk : ∀ d, t.Enters inside loc name d →
      u.walk (d :: inside) d (names ++ [name]) = t.walk (d :: inside) d (names ++ [name])) :
    u.seen inside loc names name = t.seen inside loc names name := by
  rcases t.child_cases inside loc name with ⟨d, hd⟩ | hbad | hleaf | hnone
  · rw [seen_of_enters hd, seen_of_enters (h.enters hd), hwalk d hd]
  · rw [seen_of_isBadLink hbad, seen_of_isBadLink (h.isBadLink hbad)]
  · rw [seen_of_isLeaf hleaf, seen_of_isLeaf (h.isLeaf hleaf)]
  · have hnone' := (h.entry (loc ++ [name])).trans hnone
    rw [FileTree.seen, FileTree.seen, hnone, hnone']

/-- Walks see the same in the same order. -/
theorem walk (h : t.Relisted u) (inside : List Location) (loc : Location) (names : List Bytes) :
    u.walk inside loc names = t.walk inside loc names := by
  induction inside, loc, names using walk_induction (t := t) with
  | step inside loc names ih =>
    have hseen : u.seen inside loc names = t.seen inside loc names := by
      funext name
      exact h.seen (ih name)
    rw [walk_eq, walk_eq, h.sortedChildren, hseen]

theorem sightings_eq (h : t.Relisted u) (directory : Location) :
    u.sightings directory = t.sightings directory :=
  h.walk [directory] directory []

end Relisted

/-! ## Changing things -/

theorem filterMap_putIn {β : Type} (f : Location → Option β) (loc : Location) (e : FileEntry)
    (es : List (Location × FileEntry)) :
    (putIn loc e es).filterMap (fun entry => f entry.1) =
      es.filterMap (fun entry => f entry.1) ++
        if es.lookup loc = none then (f loc).toList else [] := by
  induction es with
  | nil => cases hf : f loc <;> simp [putIn, hf]
  | cons head rest ih =>
    obtain ⟨l, old⟩ := head
    by_cases hl : l = loc
    · subst hl
      simp [putIn, List.filterMap_cons]
    · have hb : (loc == l) = false := by simpa using fun hc => hl hc.symm
      rw [putIn, if_neg hl, List.filterMap_cons, List.filterMap_cons, ih, List.lookup_cons, hb]
      cases f l <;> rfl

theorem children_put (t : FileTree) (loc : Location) (e : FileEntry) (directory : Location) :
    (t.put loc e).children directory = t.children directory ++
      if t.at? loc = none then (nameBelow? directory loc).toList else [] := by
  have hput := filterMap_putIn (nameBelow? directory) loc e t.entries
  by_cases hloc : loc = []
  · subst hloc
    have hroot : nameBelow? directory [] = none := by
      unfold nameBelow?
      split
      · rw [List.drop_nil]
      · rfl
    rw [hroot, Option.toList_none, ite_self, List.append_nil] at hput ⊢
    exact hput
  · rw [at?, if_neg hloc]
    exact hput

theorem nameBelow?_eq_some {directory loc : Location} {name : Bytes} :
    nameBelow? directory loc = some name ↔ loc = directory ++ [name] := by
  unfold nameBelow?
  constructor
  · intro h
    split at h
    · rename_i hbelow
      obtain ⟨rest, rfl⟩ := List.isPrefixOf_iff_prefix.1 hbelow
      rw [List.drop_left] at h
      split at h
      · cases h
        rfl
      · cases h
    · cases h
  · rintro rfl
    rw [if_pos (List.isPrefixOf_iff_prefix.2 (List.prefix_append _ _)), List.drop_left]

theorem mem_children_iff {directory : Location} {name : Bytes} :
    name ∈ t.children directory ↔ t.at? (directory ++ [name]) ≠ none := by
  constructor
  · intro h
    obtain ⟨entry, hmem, hname⟩ := List.mem_filterMap.1 h
    rw [at?, if_neg (by simp), ← nameBelow?_eq_some.1 hname]
    intro hnone
    exact absurd (List.lookup_eq_none_iff.1 hnone entry hmem) (by simp)
  · intro h
    obtain ⟨e, he⟩ := Option.ne_none_iff_exists'.1 h
    exact (List.mergeSort_perm _ _).mem_iff.1 (mem_children_of_at? he)

/-- A table without repetitions lists each child once. -/
theorem nodup_children (h : (t.entries.map (·.1)).Nodup) (directory : Location) :
    (t.children directory).Nodup := by
  have hchildren : t.children directory =
      (t.entries.map (·.1)).filterMap (nameBelow? directory) := by
    rw [List.filterMap_map]
    rfl
  rw [hchildren]
  refine h.filterMap ?_
  intro a b name ha hb
  rw [nameBelow?_eq_some.1 ha, nameBelow?_eq_some.1 hb]

namespace Relisted

/-- Trees with one table, in one order or another. -/
theorem of_perm (h : u.entries.Perm t.entries) (hnodup : (t.entries.map (·.1)).Nodup)
    (hstart : u.workingDirectory = t.workingDirectory) : t.Relisted u := by
  refine ⟨⟨hstart, ?_⟩, fun directory => h.filterMap _⟩
  intro loc
  unfold at?
  split
  · rfl
  · exact lookup_perm h hnodup

theorem put (h : t.Relisted u) (loc : Location) (e : FileEntry) :
    (t.put loc e).Relisted (u.put loc e) := by
  refine ⟨⟨h.start, ?_⟩, ?_⟩
  · intro other
    by_cases hroot : other = []
    · rw [hroot, at?_root, at?_root]
    by_cases hother : other = loc
    · subst hother
      rw [at?_put_same u e hroot, at?_put_same t e hroot]
    · rw [at?_put_other u e hother, at?_put_other t e hother, h.entry]
  · intro directory
    rw [children_put, children_put, h.entry]
    exact (h.children directory).append_right _

/-- A change that depends on the tree by lookups alone, and puts one entry if it succeeds. -/
theorem makeDirectory (h : t.Relisted u) (p : Path) :
    SameChange Relisted (t.makeDirectory p) (u.makeDirectory p) := by
  have hstart : u.start p = t.start p := by rw [FileTree.start, FileTree.start, h.start]
  rw [makeDirectory_eq, makeDirectory_eq, hstart, h.follow]
  simp only [h.entry]
  split
  · exact .inl ⟨_, rfl, rfl⟩
  split
  · exact .inl ⟨_, rfl, rfl⟩
  split
  · exact .inl ⟨_, rfl, rfl⟩
  split
  · exact .inl ⟨_, rfl, rfl⟩
  · exact .inl ⟨_, rfl, rfl⟩
  split
  · exact .inl ⟨_, rfl, rfl⟩
  split
  · exact .inl ⟨_, rfl, rfl⟩
  split
  · exact .inl ⟨_, rfl, rfl⟩
  · exact .inr ⟨_, _, rfl, rfl, h.put _ _⟩

theorem write (h : t.Relisted u) (p : Path) (content : ByteArray) :
    SameChange Relisted (t.write p content) (u.write p content) := by
  unfold FileTree.write
  rw [h.locate]
  cases t.locate true p with
  | error e => exact .inl ⟨e, rfl, rfl⟩
  | ok place =>
    cases place with
    | absent directory name => exact .inr ⟨_, _, rfl, rfl, h.put _ _⟩
    | present loc =>
      simp only [bind, Except.bind, h.entry]
      cases t.at? loc with
      | none => exact .inl ⟨_, rfl, rfl⟩
      | some e =>
        cases e with
        | directory => exact .inl ⟨_, rfl, rfl⟩
        | file old => exact .inr ⟨_, _, rfl, rfl, h.put _ _⟩
        | link target => exact .inl ⟨_, rfl, rfl⟩

theorem tryDirectory (h : t.Relisted u) (p : Path) :
    SameResult Relisted (t.tryDirectory p) (u.tryDirectory p) := by
  refine (h.makeDirectory p).tryDirectory h ?_
  rw [isDirectory, isDirectory, h.directory?]

theorem makeAll (h : t.Relisted u) (paths : List Path) :
    SameResult Relisted (t.makeAll paths) (u.makeAll paths) := by
  induction paths with
  | nil => exact ⟨h, rfl⟩
  | cons p above ih => exact (h.makeDirectory p).makeAll h (fun hv => hv.tryDirectory p) ih

theorem writeWithDirectories (h : t.Relisted u) (p : Path) (content : ByteArray) :
    SameResult Relisted (t.writeWithDirectories p content) (u.writeWithDirectories p content) :=
  (h.makeAll (enclosing p)).writeWithDirectories fun hv => hv.write p content

end Relisted

end FileTree

/-! ## Unpacking -/

namespace Archive

open FileTree

variable {t u : FileTree}

theorem Entry.place_relisted (e : Entry) (h : t.Relisted u) (destination : Path)
    (bytes : ByteArray) (isSound : Bool) :
    SameResult Relisted (e.place t destination bytes isSound)
      (e.place u destination bytes isSound) := by
  unfold Entry.place
  split
  · exact ⟨h, rfl⟩
  split
  · obtain ⟨v, w, outcome, ht, hu, hv⟩ :=
      (h.makeAll (ancestors (destination.join e.path))).parts
    dsimp only [makeDirectories]
    rw [ht, hu]
    cases outcome <;> exact ⟨hv, rfl⟩
  · obtain ⟨v, w, outcome, ht, hu, hv⟩ :=
      (h.writeWithDirectories (destination.join e.path) bytes).parts
    rw [ht, hu]
    cases outcome <;> exact ⟨hv, rfl⟩

theorem Entry.unpack_relisted (e : Entry) (h : t.Relisted u) (destination : Path) :
    SameResult Relisted (e.unpack t destination) (e.unpack u destination) := by
  unfold Entry.unpack
  cases e.content with
  | locked => exact ⟨h, rfl⟩
  | sound bytes => exact e.place_relisted h destination bytes true
  | damaged bytes => exact e.place_relisted h destination bytes false

theorem unpackAll_relisted (h : t.Relisted u) (destination : Path) (entries : List Entry) :
    SameResult Relisted (unpackAll destination entries t) (unpackAll destination entries u) := by
  induction entries generalizing t u with
  | nil => exact ⟨h, rfl⟩
  | cons e rest ih =>
    unfold unpackAll
    obtain ⟨v, w, outcome, ht, hu, hv⟩ := (e.unpack_relisted h destination).parts
    rw [ht, hu]
    cases outcome with
    | error fault => exact ⟨hv, rfl⟩
    | ok path =>
      obtain ⟨v', w', others, ht', hu', hv'⟩ := (ih hv).parts
      dsimp only
      rw [ht', hu']
      exact ⟨hv', rfl⟩

theorem unpack_relisted (a : Archive) (h : t.Relisted u) (destination : Path) :
    SameResult Relisted (a.unpack t destination) (a.unpack u destination) := by
  unfold unpack
  obtain ⟨v, w, outcome, ht, hu, hv⟩ := (unpackAll_relisted h destination a.entries).parts
  rw [ht, hu]
  split
  · rename_i heq
    cases heq
    exact ⟨hv, rfl⟩
  · rename_i hfiles
    split
    · rename_i heq
      cases heq
      exact absurd rfl (hfiles v)
    · exact ⟨hv, rfl⟩

theorem unpackFile_relisted (h : t.Relisted u) (path destination : Path) :
    SameResult Relisted (unpackFile t path destination) (unpackFile u path destination) := by
  unfold unpackFile load
  rw [h.read]
  cases t.read path with
  | error e => cases e <;> exact ⟨h, rfl⟩
  | ok content =>
    dsimp only
    cases read? content with
    | none => exact ⟨h, rfl⟩
    | some a => exact a.unpack_relisted h destination

end Archive

/-! ## Selecting archives -/

namespace Selection

variable {t u : FileTree} {settings : Settings}

theorem fileNames_perm (h : t.Relisted u) (directory : Location) :
    (fileNames u directory).Perm (fileNames t directory) := by
  unfold fileNames
  simp only [h.child?]
  exact (h.children directory).filter _

theorem archiveNames_perm {names names' : List Bytes} (h : names.Perm names') :
    archiveNames settings names = archiveNames settings names' := by
  have hkey : ∀ a b : String, Text.order a b = compare (Text.bytes a) (Text.bytes b) :=
    fun _ _ => rfl
  have hsorted (names : List Bytes) : SortedBy Text.order
      ((names.filterMap Text.ofBytes?).filter (isArchive settings))
      (archiveNames settings names) := .mergeSort _
  have hmap := (hsorted names).map_key hkey (hsorted names') ((h.filterMap _).filter _)
  exact List.map_injective_iff.2 (fun _ _ => Text.bytes_injective) hmap

/-- The complaints do not say which name they are about. -/
theorem complaints_perm (directory : Path) {names names' : List Bytes} (h : names.Perm names') :
    complaints directory names = complaints directory names' := by
  unfold complaints
  rw [List.map_const', List.map_const', (h.filter _).length_eq]

/-- What makes a name one of the selected: the directory has it, it leads to a file, and it begins
and ends as the names of archives do. -/
structure IsSelected (t : FileTree) (directory : Location) (settings : Settings) (name : String) :
    Prop where
  listed : t.at? (directory ++ [Text.bytes name]) ≠ none
  file : ∃ loc content, t.child? directory (Text.bytes name) = some (loc, .file content)
  begins : settings.archivePrefix.toList <+: name.toList
  ends : '.' :: settings.archiveExtension.toList <:+ name.toList

theorem isArchive_iff {name : String} : isArchive settings name = true ↔
    settings.archivePrefix.toList <+: name.toList ∧
      '.' :: settings.archiveExtension.toList <:+ name.toList := by
  have hdot : ("." ++ settings.archiveExtension).toList = '.' :: settings.archiveExtension.toList :=
    String.toList_append
  rw [isArchive, Bool.and_eq_true, Text.startsWith, Text.endsWith, hdot,
    List.isPrefixOf_iff_prefix, List.isSuffixOf_iff_suffix]

theorem mem_fileNames {directory : Location} {name : Bytes} :
    name ∈ fileNames t directory ↔ t.at? (directory ++ [name]) ≠ none ∧
      ∃ loc content, t.child? directory name = some (loc, .file content) := by
  unfold fileNames
  rw [List.mem_filter, FileTree.mem_children_iff]
  refine and_congr_right fun _ => ?_
  split
  · rename_i loc content heq
    exact iff_of_true rfl ⟨loc, content, heq⟩
  · rename_i hno
    refine iff_of_false Bool.false_ne_true ?_
    rintro ⟨loc, content, heq⟩
    exact hno loc content heq

theorem mem_archiveNames {directory : Location} {name : String} :
    name ∈ archiveNames settings (fileNames t directory) ↔
      IsSelected t directory settings name := by
  have htext (b : Bytes) : Text.ofBytes? b = some name ↔ b = Text.bytes name := by
    constructor
    · exact fun h => (Text.bytes_ofBytes? h).symm
    · rintro rfl
      rw [Text.ofBytes?, if_pos (Text.wellFormed_iff.2 ⟨name, rfl⟩), Text.ofBytes_bytes]
  unfold archiveNames
  rw [(List.mergeSort_perm _ _).mem_iff, List.mem_filter, List.mem_filterMap, isArchive_iff]
  simp only [htext, exists_eq_right, mem_fileNames]
  constructor
  · rintro ⟨⟨hlisted, hfile⟩, hbegins, hends⟩
    exact ⟨hlisted, hfile, hbegins, hends⟩
  · rintro ⟨hlisted, hfile, hbegins, hends⟩
    exact ⟨⟨hlisted, hfile⟩, hbegins, hends⟩

theorem archiveNames_increasing {names : List Bytes} (h : names.Nodup) :
    (archiveNames settings names).Pairwise fun a b => Text.order a b = .lt := by
  have hsorted : SortedBy Text.order ((names.filterMap Text.ofBytes?).filter (isArchive settings))
      (archiveNames settings names) := .mergeSort _
  have htexts : (names.filterMap Text.ofBytes?).Nodup := by
    refine h.filterMap ?_
    intro a b s ha hb
    rw [← Text.bytes_ofBytes? ha, Text.bytes_ofBytes? hb]
  have hnodup : (archiveNames settings names).Nodup :=
    hsorted.perm.nodup_iff.2 (htexts.filter _)
  refine (hsorted.ordered.and hnodup).imp ?_
  rintro a b ⟨hle, hne⟩
  rcases Ordering.isLE_iff_eq_lt_or_eq_eq.1 hle with hlt | heq
  · exact hlt
  · exact absurd (Text.bytes_injective (Std.LawfulEqCmp.eq_of_compare heq)) hne

/-- Selection gives all the names there are to select, in increasing order, and fails where there is
none. -/
theorem archives_cases {directory : Path} {location : Location}
    (hd : t.directory? directory = some location) (hnodup : (t.children location).Nodup) :
    (archives t directory settings).outcome =
        .error (.noArchives directory settings.archivePrefix settings.archiveExtension) ∧
      (∀ name, ¬ IsSelected t location settings name) ∨
    ∃ names, (archives t directory settings).outcome = .ok names ∧
      names.Pairwise (fun a b => Text.order a b = .lt) ∧
      ∀ name, name ∈ names ↔ IsSelected t location settings name := by
  have hmem (name : String) : name ∈ archiveNames settings (fileNames t location) ↔
      IsSelected t location settings name := mem_archiveNames
  have hincreasing : (archiveNames settings (fileNames t location)).Pairwise
      fun a b => Text.order a b = .lt := archiveNames_increasing (hnodup.filter _)
  unfold archives
  rw [hd]
  simp only [Logged.outcome_bind]
  cases hnames : archiveNames settings (fileNames t location) with
  | nil =>
    rw [hnames] at hmem
    exact .inl ⟨rfl, fun name hname => absurd ((hmem name).2 hname) List.not_mem_nil⟩
  | cons first rest =>
    rw [hnames] at hmem hincreasing
    exact .inr ⟨first :: rest, rfl, hincreasing, hmem⟩

theorem archives_relisted (h : t.Relisted u) (directory : Path) :
    archives u directory settings = archives t directory settings := by
  unfold archives
  rw [h.directory?]
  cases t.directory? directory with
  | none => rfl
  | some location =>
    have hnames := fileNames_perm h location
    dsimp only
    rw [complaints_perm directory hnames, archiveNames_perm hnames]

end Selection

namespace Generation

open FileTree

variable {t u : FileTree} {scratch : Scratch} {settings : Settings} {request : Request}

theorem setup_relisted (h : t.Relisted u) :
    setup u settings request = setup t settings request := by
  have htemplate (given : Option Path) : template u given = template t given := by
    cases given with
    | none => rfl
    | some path => rw [template, template, h.readText?]
  have hsurvey (root : Path) (extension : String) :
      ArtifactIndex.survey u root extension = ArtifactIndex.survey t root extension := by
    unfold ArtifactIndex.survey
    rw [h.directory?]
    cases t.directory? root with
    | none => rfl
    | some directory =>
      dsimp only
      rw [h.sightings_eq]
  unfold setup
  rw [isDirectory, isDirectory, h.directory?, Selection.archives_relisted h, htemplate, hsurvey]

theorem contents_relisted (h : t.Relisted u) (place : Option Path) (path : Path) :
    (contents u place path).2 = (contents t place path).2 := by
  unfold contents
  cases place with
  | none => rfl
  | some p =>
    simp only [Option.bind_some, withTemporary?, h.vacancy?]
    cases t.vacancy? p with
    | none => rfl
    | some loc =>
      obtain ⟨v, w, outcome, ht, hu, -⟩ :=
        (Archive.unpackFile_relisted (h.put loc .directory) path p).parts
      simp only [Option.map_some, ht, hu]

theorem distribution_relisted (h : t.Relisted u) (m : Mapping) (directory : Path)
    (archive : String) :
    SameResult Relisted (distribution scratch m directory t archive)
      (distribution scratch m directory u archive) := by
  constructor
  · rw [distribution_tree, distribution_tree]
    exact h
  · unfold distribution
    dsimp only
    rw [contents_relisted h]

/-- What work on one thing does alike on both trees, work on one thing after the other does. -/
theorem inTurn_relisted {α β : Type} {work : FileTree → α → FileTree × Logged Failure β}
    (step : ∀ {t u} a, t.Relisted u → SameResult Relisted (work t a) (work u a)) (h : t.Relisted u)
    (xs : List α) : SameResult Relisted (inTurn work xs t) (inTurn work xs u) := by
  induction xs generalizing t u with
  | nil => exact ⟨h, rfl⟩
  | cons a rest ih =>
    unfold inTurn
    obtain ⟨v, w, first, ht, hu, hv⟩ := (step a h).parts
    rw [ht, hu]
    dsimp only
    cases first.outcome with
    | error failure => exact ⟨hv, rfl⟩
    | ok b =>
      obtain ⟨v', w', others, ht', hu', hv'⟩ := (ih hv).parts
      dsimp only
      rw [ht', hu']
      exact ⟨hv', rfl⟩

theorem plan_relisted (h : t.Relisted u) :
    SameResult Relisted (plan t scratch settings request) (plan u scratch settings request) := by
  constructor
  · rw [plan_tree, plan_tree]
    exact h
  · unfold plan
    rw [setup_relisted h]
    dsimp only
    cases (setup t settings request).outcome with
    | error failure => rfl
    | ok s =>
      obtain ⟨v, w, found, ht, hu, -⟩ := (inTurn_relisted
        (fun a hv => distribution_relisted hv s.mapping request.archives a) h s.archives).parts
      dsimp only
      rw [ht, hu]

theorem writeManifest_relisted (template : Bom.Template) (style : Bom.Style) (output : Path)
    (h : t.Relisted u) (d : Distribution) :
    SameResult Relisted (writeManifest template style output t d)
      (writeManifest template style output u d) := by
  unfold writeManifest
  obtain ⟨v, w, outcome, ht, hu, hv⟩ := (h.writeWithDirectories (Bom.path output d)
    (template.fill style d).toUTF8).parts
  dsimp only
  rw [ht, hu]
  cases outcome <;> exact ⟨hv, rfl⟩

theorem execute_relisted (h : t.Relisted u) (p : Plan) :
    SameResult Relisted (execute t request p) (execute u request p) := by
  unfold execute
  split
  · exact ⟨h, rfl⟩
  · obtain ⟨v, w, written, ht, hu, hv⟩ := (inTurn_relisted
      (fun d hv => writeManifest_relisted p.template request.style request.output hv d) h
      p.distributions).parts
    rw [ht, hu]
    exact ⟨hv, rfl⟩

theorem runIn_sameResult (h : t.Relisted u) :
    SameResult Relisted (runIn t scratch settings request) (runIn u scratch settings request) := by
  unfold runIn
  obtain ⟨v, w, planned, ht, hu, hv⟩ := (plan_relisted h).parts
  rw [ht, hu]
  dsimp only
  cases planned.outcome with
  | error failure => exact ⟨hv, rfl⟩
  | ok p =>
    obtain ⟨v', w', result, ht', hu', hv'⟩ := (execute_relisted hv p).parts
    dsimp only
    rw [ht', hu']
    exact ⟨hv', rfl⟩

/-- The order in which directories list their children does not show in a run: not in its answer,
not in its log and not in what it leaves behind. The archives are selected in an order of their
own. -/
theorem runIn_relisted (h : t.Relisted u) (hnodup : ∀ directory, (t.children directory).Nodup)
    (scratch : Scratch) (settings : Settings) (request : Request) :
    (runIn u scratch settings request).2 = (runIn t scratch settings request).2 ∧
    (runIn t scratch settings request).1.Relisted (runIn u scratch settings request).1 ∧
    ∀ directory location, t.directory? directory = some location →
      (Selection.archives t directory settings).outcome =
          .error (.noArchives directory settings.archivePrefix settings.archiveExtension) ∧
        (∀ name, ¬ Selection.IsSelected t location settings name) ∨
      ∃ names, (Selection.archives t directory settings).outcome = .ok names ∧
        names.Pairwise (fun a b => Text.order a b = .lt) ∧
        ∀ name, name ∈ names ↔ Selection.IsSelected t location settings name :=
  ⟨(runIn_sameResult h).answer, (runIn_sameResult h).tree,
    fun _ location hd => Selection.archives_cases hd (hnodup location)⟩

/-- A directory that lists an archive before another file. -/
def archiveFirst : FileTree :=
  treeOf [("apache-tomee-plus-8.0.6.zip", archiveOf ["lib/ecj-3.jar"]), ("notes.txt", .empty)]

/-- The same directory with the archive listed last. -/
def archiveLast : FileTree := { archiveFirst with entries := archiveFirst.entries.reverse }

theorem archiveLast_run :
    archiveLast.children [Text.bytes "dists"] ≠ archiveFirst.children [Text.bytes "dists"] ∧
    (runIn archiveFirst (fun _ => some (.ofString "/tmp")) {} plainRequest).2.outcome.isOk = true ∧
    (runIn archiveLast (fun _ => some (.ofString "/tmp")) {} plainRequest).2 =
      (runIn archiveFirst (fun _ => some (.ofString "/tmp")) {} plainRequest).2 := by
  have hnodup : (archiveFirst.entries.map (·.1)).Nodup := by decide +kernel
  have hrelisted : archiveFirst.Relisted archiveLast := .of_perm (List.reverse_perm _) hnodup rfl
  refine ⟨by decide +kernel, by decide +kernel, ?_⟩
  exact (runIn_relisted hrelisted (nodup_children hnodup) _ {} plainRequest).1

end Generation
end BillOfMaterials
