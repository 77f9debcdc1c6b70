import BillOfMaterials.Proofs.Outside
import BillOfMaterials.Proofs.Walking
import BillOfMaterials.Proofs.Writing

/-!
# What unpacking leaves

Each entry is unpacked into the tree that the entries before it have made. So an entry may find a
file where it needs a directory, or a directory where its file should go, and one that goes up by
`..` may go through a directory that was made for it. The first entry that fails ends the work, and
which fault that is depends on this entry alone and on the tree that it meets.

Several names may stand for one place: `a.jar`, `./a.jar` and `x/../a.jar` are the same file. Below
a destination without links the place can be read off the name, and what a place holds in the end is
the data of the last file that landed there.
-/
namespace BillOfMaterials

open BillOfMaterials.Path (dot)

/-! ## Steps where no link is -/

/-- Where steps lead if no link is on the way. -/
def resolve : Location → List Bytes → Location
  | loc, [] => loc
  | loc, step :: rest =>
    if step = [dot] then resolve loc rest
    else if step = [dot, dot] then resolve loc.dropLast rest
    else resolve (loc ++ [step]) rest

theorem resolve_dot (loc : Location) (rest : List Bytes) :
    resolve loc ([dot] :: rest) = resolve loc rest := by
  rw [resolve, if_pos rfl]

theorem resolve_up (loc : Location) (rest : List Bytes) :
    resolve loc ([dot, dot] :: rest) = resolve loc.dropLast rest := by
  rw [resolve, if_neg (by decide), if_pos rfl]

theorem resolve_name {step : Bytes} (hd : step ≠ [dot]) (hu : step ≠ [dot, dot]) (loc : Location)
    (rest : List Bytes) : resolve loc (step :: rest) = resolve (loc ++ [step]) rest := by
  rw [resolve, if_neg hd, if_neg hu]

theorem resolve_filter (steps : List Bytes) (loc : Location) :
    resolve loc (steps.filter (· ≠ [dot])) = resolve loc steps := by
  induction steps generalizing loc with
  | nil => rfl
  | cons step rest ih =>
    by_cases hd : step = [dot]
    · subst hd
      rw [List.filter_cons_of_neg (by simp), resolve_dot, ih]
    rw [List.filter_cons_of_pos (by simpa using hd)]
    by_cases hu : step = [dot, dot]
    · subst hu
      rw [resolve_up, resolve_up, ih]
    · rw [resolve_name hd hu, resolve_name hd hu, ih]

namespace FileTree

variable {t u v : FileTree} {p q : Path} {d d' loc : Location}

/-- Steps that stay below a place without links lead where their names say. -/
theorem Finds.location_eq {final : Bool} {n : Nat} {steps : List Bytes} {place : Place}
    {below : Location} (h : t.Finds final n loc steps place) (hloc : loc = d ++ below)
    (hk : keepsBelow below.length steps)
    (hlinks : ∀ other target, d <+: other → t.at? other ≠ some (.link target)) :
    place.location = d ++ resolve below steps := by
  have hbelow {loc below : Location} (hloc : loc = d ++ below) (step : Bytes) :
      d <+: loc ++ [step] := by
    rw [hloc, List.append_assoc]
    exact List.prefix_append ..
  induction h generalizing below with
  | here => exact hloc
  | stay _ ih =>
    rw [keepsBelow_dot] at hk
    rw [resolve_dot]
    exact ih hloc hk
  | up _ ih =>
    rw [keepsBelow_up, Bool.and_eq_true, decide_eq_true_eq] at hk
    have hne : below ≠ [] := List.ne_nil_of_length_pos hk.1
    rw [resolve_up]
    refine ih ?_ ?_
    · rw [hloc, List.dropLast_append_of_ne_nil hne]
    · rw [List.length_dropLast]
      exact hk.2
  | down hdot hup _ _ _ ih =>
    rw [keepsBelow_name hdot hup] at hk
    rw [resolve_name hdot hup]
    refine ih ?_ ?_
    · rw [hloc, List.append_assoc]
    · rw [List.length_append]
      exact hk
  | missing hdot hup _ _ =>
    rw [resolve_name hdot hup, Place.location, hloc, List.append_assoc]
    rfl
  | file hdot hup _ _ =>
    rw [resolve_name hdot hup, Place.location, hloc, List.append_assoc]
    rfl
  | link _ _ _ he _ => exact absurd he (hlinks _ _ (hbelow hloc _))
  | across _ _ _ he _ _ => exact absurd he (hlinks _ _ (hbelow hloc _))

theorem LeadsTo.unique (h : t.LeadsTo p d) (h' : t.LeadsTo p d') : d = d' := by
  obtain ⟨m, hl⟩ := h
  obtain ⟨m', hl'⟩ := h'
  have hsame := (hl.follow_to true).symm.trans (hl'.follow_to true)
  cases hsame
  rfl

/-- Where a path below a place without links ends, if the place is what `p` leads to. -/
theorem location_join (hq : q.isAbsolute = false) (hk : keepsBelow 0 q.named)
    (h : t.locate true (p.join q) = .ok (.present loc)) (hclear : t.ClearOfLinks t p) :
    ∃ d, t.LeadsTo p d ∧ loc = d ++ resolve [] q.named := by
  obtain ⟨r, m, d, hsteps, -, hkr, hl, hrest⟩ := leads_of_locate_join hq hk h
  have hnamed : r.filter (· ≠ [dot]) = q.named.filter (· ≠ [dot]) := by
    have hfilter := Path.filter_steps (p.join q)
    rwa [hsteps, Path.named_join hq, List.filter_append, List.filter_append,
      List.append_cancel_left_eq] at hfilter
  have hplace := (finds_of_follow hrest).location_eq (List.append_nil d).symm hkr
    fun other target => hclear d other target ⟨m, hl⟩
  refine ⟨d, ⟨m, hl⟩, ?_⟩
  rw [← resolve_filter, ← hnamed, resolve_filter]
  exact hplace

/-- A place that is free of links in the end was free of links before. -/
theorem ClearOfLinks.before (h : u.ClearOfLinks u p) (hg : t.Grows u) : t.ClearOfLinks t p :=
  fun d loc target hd hloc hlink => h d loc target (hd.grows hg) hloc (hg.link hlink)

end FileTree

namespace Archive

def Content.bytes : Content → ByteArray
  | .locked => .empty
  | .damaged bytes => bytes
  | .sound bytes => bytes

/-- Whether reading the entry ends well. -/
def Content.isSound : Content → Bool
  | .sound _ => true
  | _ => false

/-- The names that lead from the destination to where an entry lands: those in its own name, each
`..` taking back the one before it. -/
def Entry.landing (e : Entry) : Location := resolve [] e.path.named

def files (entries : List Entry) : List Entry := entries.filter fun e => !e.isDirectory

/-- The last of the files that land at a place. -/
def lastAt? (entries : List Entry) (names : Location) : Option Entry :=
  ((files entries).filter fun e => decide (e.landing = names)).getLast?

open FileTree

variable {p : Path} {t u v : FileTree} {e : Entry} {entries before after : List Entry}
  {fault : UnpackFault}

theorem lastAt?_concat (entries : List Entry) (e : Entry) (names : Location) :
    lastAt? (entries ++ [e]) names =
      if e.isDirectory = false ∧ e.landing = names then some e else lastAt? entries names := by
  unfold lastAt? files
  rw [List.filter_append, List.filter_append]
  by_cases hfile : e.isDirectory = false
  · rw [List.filter_cons_of_pos (a := e) (by simpa using hfile), List.filter_nil]
    by_cases hnames : e.landing = names
    · rw [if_pos ⟨hfile, hnames⟩, List.filter_cons_of_pos (by simpa using hnames),
        List.filter_nil, List.getLast?_concat]
    · rw [if_neg fun h => hnames h.2, List.filter_cons_of_neg (by simpa using hnames),
        List.filter_nil, List.append_nil]
  · rw [if_neg fun h => hfile h.1, List.filter_cons_of_neg (a := e) (by simpa using hfile),
      List.filter_nil, List.filter_nil, List.append_nil]

/-! ## One entry -/

/-- The entry is unpacked, and `u` is the tree that it leaves. -/
inductive Entry.Succeeds (p : Path) (t : FileTree) (e : Entry) (u : FileTree) : Prop
  | directory : e.content ≠ .locked → e.isContained → e.isDirectory →
      t.makeDirectories (p.join e.path) = (u, .ok ()) → Succeeds p t e u
  | file {bytes : ByteArray} : e.content = .sound bytes → e.isContained → e.isDirectory = false →
      t.writeWithDirectories (p.join e.path) bytes = (u, .ok ()) → Succeeds p t e u

/-- Why the entry is not unpacked, and the tree `u` that it leaves. What has been made for it stays,
the data that came out of a damaged one included. -/
inductive Entry.Fails (p : Path) (t : FileTree) (e : Entry) (u : FileTree) : UnpackFault → Prop
  | locked : e.content = .locked → u = t → Fails p t e u .unreadable
  | escape : e.content ≠ .locked → ¬e.isContained → u = t → Fails p t e u (.escape e.name)
  | directory {error : FileError} : e.content ≠ .locked → e.isContained → e.isDirectory →
      t.makeDirectories (p.join e.path) = (u, .error error) → Fails p t e u .failed
  | file {error : FileError} : e.content ≠ .locked → e.isContained → e.isDirectory = false →
      t.writeWithDirectories (p.join e.path) e.content.bytes = (u, .error error) →
      Fails p t e u .failed
  | damaged {bytes : ByteArray} : e.content = .damaged bytes → e.isContained →
      e.isDirectory = false → t.writeWithDirectories (p.join e.path) bytes = (u, .ok ()) →
      Fails p t e u .failed

def Entry.listed (e : Entry) : Option Path := if e.isDirectory then none else some e.path

theorem Entry.unpack_open (h : e.content ≠ .locked) (t : FileTree) (p : Path) :
    e.unpack t p = e.place t p e.content.bytes e.content.isSound := by
  unfold Entry.unpack
  cases hc : e.content with
  | locked => exact absurd hc h
  | damaged bytes => rfl
  | sound bytes => rfl

theorem Entry.Succeeds.unpack_eq (h : e.Succeeds p t u) : e.unpack t p = (u, .ok e.listed) := by
  unfold Entry.listed
  cases h with
  | directory hopen hcontained hdirectory hmade =>
    rw [unpack_open hopen, if_pos hdirectory]
    simp only [place, hcontained, hdirectory, hmade]
    rfl
  | file hcontent hcontained hfile hwritten =>
    rw [unpack_open (by rw [hcontent]; nofun), hcontent]
    simp only [place, hcontained, hfile, Content.bytes, hwritten]
    rfl

theorem Entry.Fails.unpack_eq (h : e.Fails p t u fault) : e.unpack t p = (u, .error fault) := by
  cases h with
  | locked hcontent hsame => rw [Entry.unpack, hcontent, hsame]
  | escape hopen hescape hsame =>
    rw [unpack_open hopen, hsame]
    simp only [place, hescape]
    rfl
  | directory hopen hcontained hdirectory hmade =>
    rw [unpack_open hopen]
    simp only [place, hcontained, hdirectory, hmade]
    rfl
  | file hopen hcontained hfile hwritten =>
    rw [unpack_open hopen]
    simp only [place, hcontained, hfile, hwritten]
    rfl
  | damaged hcontent hcontained hfile hwritten =>
    rw [unpack_open (by rw [hcontent]; nofun), hcontent]
    simp only [place, hcontained, hfile, Content.bytes, hwritten]
    rfl

/-- An entry is unpacked or it is not, and there is one of the reasons above. -/
theorem Entry.succeeds_or_fails (p : Path) (t : FileTree) (e : Entry) :
    ∃ u, e.Succeeds p t u ∨ ∃ fault, e.Fails p t u fault := by
  by_cases hlocked : e.content = .locked
  · exact ⟨t, .inr ⟨_, .locked hlocked rfl⟩⟩
  by_cases hcontained : e.isContained = true
  · by_cases hdirectory : e.isDirectory = true
    · cases hmade : t.makeDirectories (p.join e.path) with
      | mk u outcome =>
        cases outcome with
        | ok _ => exact ⟨u, .inl (.directory hlocked hcontained hdirectory hmade)⟩
        | error error =>
          exact ⟨u, .inr ⟨_, .directory hlocked hcontained hdirectory hmade⟩⟩
    · rw [Bool.not_eq_true] at hdirectory
      cases hwritten : t.writeWithDirectories (p.join e.path) e.content.bytes with
      | mk u outcome =>
        cases outcome with
        | error error => exact ⟨u, .inr ⟨_, .file hlocked hcontained hdirectory hwritten⟩⟩
        | ok _ =>
          cases hcontent : e.content with
          | locked => exact absurd hcontent hlocked
          | damaged bytes =>
            rw [hcontent] at hwritten
            exact ⟨u, .inr ⟨_, .damaged hcontent hcontained hdirectory hwritten⟩⟩
          | sound bytes =>
            rw [hcontent] at hwritten
            exact ⟨u, .inl (.file hcontent hcontained hdirectory hwritten)⟩
  · exact ⟨t, .inr ⟨_, .escape hlocked hcontained rfl⟩⟩

/-! ## A run of entries -/

/-- Entries are unpacked one after the other, and none of them fails. -/
inductive Passes (p : Path) : FileTree → List Entry → FileTree → Prop
  | nil {t : FileTree} : Passes p t [] t
  | cons {t v u : FileTree} {e : Entry} {rest : List Entry} :
      e.Succeeds p t v → Passes p v rest u → Passes p t (e :: rest) u

/-- What is listed is the files, in the order of the archive. -/
theorem filterMap_listed (entries : List Entry) :
    entries.filterMap Entry.listed = (files entries).map Entry.path := by
  induction entries with
  | nil => rfl
  | cons e rest ih =>
    by_cases hdirectory : e.isDirectory = true
    · have hlisted : e.listed = none := if_pos hdirectory
      rw [List.filterMap_cons_none hlisted, ih, files, files,
        List.filter_cons_of_neg (by simpa using hdirectory)]
    · have hlisted : e.listed = some e.path := if_neg hdirectory
      rw [List.filterMap_cons_some hlisted, ih, files, files,
        List.filter_cons_of_pos (by simpa using hdirectory), List.map_cons]

theorem Passes.unpackAll_append (h : Passes p t before v) (after : List Entry) :
    unpackAll p (before ++ after) t =
      ((unpackAll p after v).1,
        (unpackAll p after v).2.map (before.filterMap Entry.listed ++ ·)) := by
  induction h with
  | nil =>
    simp only [List.nil_append, List.filterMap_nil]
    cases unpackAll p after _ with
    | mk u outcome => cases outcome <;> rfl
  | @cons t v u e rest hdone _ ih =>
    rw [List.cons_append, unpackAll, hdone.unpack_eq]
    dsimp only
    rw [ih]
    cases (unpackAll p after u).2 with
    | error fault => rfl
    | ok paths =>
      cases hlisted : e.listed with
      | none => simp [Except.map, List.filterMap_cons_none hlisted]
      | some path => simp [Except.map, List.filterMap_cons_some hlisted]

theorem Passes.unpackAll_eq (h : Passes p t entries u) :
    unpackAll p entries t = (u, .ok ((files entries).map Entry.path)) := by
  have hall := h.unpackAll_append []
  rw [List.append_nil] at hall
  rw [hall, ← filterMap_listed]
  simp [unpackAll, Except.map]

/-- All entries pass, or there is a first one that fails. -/
theorem unpackAll_cases (p : Path) (t : FileTree) (entries : List Entry) :
    (∃ u, Passes p t entries u) ∨ ∃ before e after v u fault,
      entries = before ++ e :: after ∧ Passes p t before v ∧ e.Fails p v u fault := by
  induction entries generalizing t with
  | nil => exact .inl ⟨t, .nil⟩
  | cons e rest ih =>
    obtain ⟨v, hdone | ⟨fault, hfault⟩⟩ := e.succeeds_or_fails p t
    · rcases ih v with ⟨u, hrest⟩ | ⟨before, x, after, w, u, fault, hsplit, hbefore, hfails⟩
      · exact .inl ⟨u, .cons hdone hrest⟩
      · exact .inr ⟨e :: before, x, after, w, u, fault, by rw [hsplit]; rfl,
          .cons hdone hbefore, hfails⟩
    · exact .inr ⟨[], e, rest, t, v, fault, rfl, .nil, hfault⟩

theorem unpackAll_of_fails (hbefore : Passes p t before v) (hfails : e.Fails p v u fault)
    (after : List Entry) : unpackAll p (before ++ e :: after) t = (u, .error fault) := by
  rw [hbefore.unpackAll_append, unpackAll, hfails.unpack_eq]
  rfl

/-! ## What lies below the destination -/

/-- Each file of `entries` lies where it lands below the place that `p` leads to, and it holds the
bytes of the last one that lands there. -/
def HoldsFiles (u : FileTree) (p : Path) (entries : List Entry) : Prop :=
  ∀ e ∈ files entries, ∃ d last, u.LeadsTo p d ∧
    u.locate true (p.join e.path) = .ok (.present (d ++ e.landing)) ∧
    lastAt? entries e.landing = some last ∧
    u.at? (d ++ e.landing) = some (.file last.content.bytes)

theorem holdsFiles_nil (u : FileTree) (p : Path) : HoldsFiles u p [] := nofun

/-- Directories that are made change nothing about files. -/
theorem HoldsFiles.keep (h : HoldsFiles v p entries) (hk : v.KeepsBut u []) :
    HoldsFiles u p entries := by
  intro e he
  obtain ⟨d, last, hlead, hlocated, hlast, hheld⟩ := h e he
  refine ⟨d, last, hlead.grows hk.grows, locate_grows hlocated hk.grows, hlast, ?_⟩
  by_cases hroot : d ++ e.landing = []
  · rw [hroot, at?_root] at hheld
    cases hheld
  · exact hk.entry _ _ hroot hheld

theorem keepsBut_of_makeDirectories {q : Path} {outcome : Except FileError Unit}
    (h : v.makeDirectories q = (u, outcome)) : v.KeepsBut u [] := by
  have hk := KeepsBut.makeAll v (ancestors q) []
  rwa [show v.makeAll (ancestors q) = _ from h] at hk

theorem HoldsFiles.directory (h : HoldsFiles u p entries) (he : e.isDirectory) :
    HoldsFiles u p (entries ++ [e]) := by
  have hsame : files (entries ++ [e]) = files entries := by
    rw [files, List.filter_append, List.filter_cons_of_neg (by simpa using he), List.filter_nil,
      List.append_nil, files]
  intro x hx
  rw [hsame] at hx
  obtain ⟨d, last, hlead, hlocated, hlast, hheld⟩ := h x hx
  refine ⟨d, last, hlead, hlocated, ?_, hheld⟩
  rw [lastAt?_concat, if_neg fun hc => by simp [he] at hc, hlast]

/-- One more file is written. It takes the place of those that have landed where it lands, and the
others stay as they are. -/
theorem HoldsFiles.write (h : HoldsFiles v p entries) (hcontained : e.isContained)
    (hfile : e.isDirectory = false) (hclear : u.ClearOfLinks u p)
    (hw : v.writeWithDirectories (p.join e.path) e.content.bytes = (u, .ok ())) :
    HoldsFiles u p (entries ++ [e]) := by
  obtain ⟨hrelative, hbelow⟩ := Entry.keepsBelow_named hcontained
  obtain ⟨loc, hkeeps, hlocated, hwritten⟩ := wrote_of_writeWithDirectories hw
  obtain ⟨d, hlead, rfl⟩ := location_join hrelative hbelow hlocated hclear
  intro x hx
  rw [files, List.filter_append, List.mem_append] at hx
  by_cases hsame : x.landing = e.landing
  · have hlast : lastAt? (entries ++ [e]) x.landing = some e := by
      rw [lastAt?_concat, if_pos ⟨hfile, hsame.symm⟩]
    refine ⟨d, e, hlead, ?_, hlast, hsame ▸ hwritten⟩
    rcases hx with hx | hx
    · obtain ⟨d', last, hlead', hlocated', -, -⟩ := h x hx
      have hd : d' = d := (hlead'.grows hkeeps.grows).unique hlead
      exact hd ▸ locate_grows hlocated' hkeeps.grows
    · obtain rfl := List.mem_singleton.1 (List.mem_filter.1 hx).1
      exact hlocated
  · rcases hx with hx | hx
    · obtain ⟨d', last, hlead', hlocated', hlast, hheld⟩ := h x hx
      have hlead'' := hlead'.grows hkeeps.grows
      obtain rfl : d' = d := hlead''.unique hlead
      refine ⟨d', last, hlead'', locate_grows hlocated' hkeeps.grows, ?_, ?_⟩
      · rw [lastAt?_concat, if_neg fun hc => hsame hc.2.symm, hlast]
      · exact hkeeps.entry _ _ (fun hc => hsame (List.append_cancel_left hc)) hheld
    · obtain rfl := List.mem_singleton.1 (List.mem_filter.1 hx).1
      exact absurd rfl hsame

/-- An entry that is unpacked adds to the files that lie there. -/
theorem Entry.Succeeds.holdsFiles (he : e.Succeeds p v u) (h : HoldsFiles v p entries)
    (hclear : u.ClearOfLinks u p) : HoldsFiles u p (entries ++ [e]) := by
  cases he with
  | directory _ _ hdirectory hmade =>
    exact (h.keep (keepsBut_of_makeDirectories hmade)).directory hdirectory
  | file hcontent hcontained hfile hwritten =>
    refine h.write hcontained hfile hclear ?_
    rw [hcontent]
    exact hwritten

/-- An entry that fails leaves the files before it as they are, unless damaged data came out of it
and was written. -/
theorem Entry.Fails.holdsFiles (he : e.Fails p v u fault) (h : HoldsFiles v p entries)
    (hclear : u.ClearOfLinks u p) :
    HoldsFiles u p entries ∨
      (∃ bytes, e.content = .damaged bytes) ∧ HoldsFiles u p (entries ++ [e]) := by
  cases he with
  | locked _ hsame => exact .inl (hsame ▸ h)
  | escape _ _ hsame => exact .inl (hsame ▸ h)
  | directory _ _ _ hmade => exact .inl (h.keep (keepsBut_of_makeDirectories hmade))
  | file _ _ _ hwritten =>
    rw [writeWithDirectories_error hwritten]
    exact .inl (h.keep (KeepsBut.makeAll v (enclosing (p.join e.path)) []))
  | damaged hcontent hcontained hfile hwritten =>
    refine .inr ⟨⟨_, hcontent⟩, h.write hcontained hfile hclear ?_⟩
    rw [hcontent]
    exact hwritten

theorem Entry.grows_unpack (e : Entry) (t : FileTree) (p : Path) : t.Grows (e.unpack t p).1 :=
  UnpackingKeeps.unpackEntry
    ⟨fun _ _ _ hu hm => hu.trans (.of_makeDirectory hm), fun _ _ hu hw => hu.trans (.of_write hw)⟩
    (.refl t) e

theorem Entry.Fails.grows (h : e.Fails p t u fault) : t.Grows u := by
  have hgrows := e.grows_unpack t p
  rwa [h.unpack_eq] at hgrows

theorem Passes.grows (h : Passes p t entries u) : t.Grows u := by
  induction h with
  | nil => exact .refl _
  | @cons t v u e rest hdone _ ih =>
    have hstep := e.grows_unpack t p
    rw [hdone.unpack_eq] at hstep
    exact hstep.trans ih

/-- What a run of entries leaves lies below the destination, with what lay there before. -/
theorem Passes.holdsFiles {earlier : List Entry} (h : Passes p v entries u)
    (hearlier : HoldsFiles v p earlier) (hclear : u.ClearOfLinks u p) :
    HoldsFiles u p (earlier ++ entries) := by
  -- on the run: what it meets is what `earlier` has left, so that grows by one entry at each step
  induction h generalizing earlier with
  | nil => rwa [List.append_nil]
  | cons hdone hrest ih =>
    have hstep := hdone.holdsFiles hearlier (hclear.before hrest.grows)
    rw [List.append_cons]
    exact ih hstep hclear

/-! ## A whole archive -/

theorem Entry.Fails.ne_noFiles (h : e.Fails p t u fault) : fault ≠ .noFiles := by
  cases h <;> nofun

theorem Passes.unpack_eq {a : Archive} (h : Passes p t a.entries u) :
    a.unpack t p = (u, if files a.entries = [] then .error .noFiles
      else .ok ((files a.entries).map Entry.path)) := by
  rw [unpack, h.unpackAll_eq]
  cases files a.entries <;> rfl

theorem unpack_of_fails {a : Archive} (hsplit : a.entries = before ++ e :: after)
    (hbefore : Passes p t before v) (hfails : e.Fails p v u fault) :
    a.unpack t p = (u, .error fault) := by
  rw [unpack, hsplit, unpackAll_of_fails hbefore hfails after]

/-- Where a destination has no links, unpacking puts none there. -/
theorem clearOfLinks_unpack {a : Archive} {result : Except UnpackFault (List Path)}
    (h : a.unpack t p = (u, result)) (hlinks : t.ClearOfLinks u p) : u.ClearOfLinks u p := by
  have hcontained := (unpackingKeeps_contained t p).unpack (fun _ => .refl t p) a
  rw [h] at hcontained
  exact fun d loc target hd hloc hlink =>
    hlinks d loc target hd hloc ((hcontained hlinks).link hlink)

/-- What comes out of unpacking an archive at a destination without links. A list of files is that
of all of them, in the order of the archive, and each lies where it lands with the data of the last
one that lands there. That there are no files is said exactly where no entry fails and none is a
file. Any other fault is that of the first entry that fails, and the files before it lie where they
land. -/
theorem unpack_files {a : Archive} {result : Except UnpackFault (List Path)}
    (h : a.unpack t p = (u, result) ∨
      ∃ path, load t path = .ok a ∧ unpackFile t path p = (u, result))
    (hlinks : ∀ d loc target, u.LeadsTo p d → d <+: loc → t.at? loc ≠ some (.link target)) :
    (∀ paths, result = .ok paths →
      paths ≠ [] ∧ paths = (files a.entries).map Entry.path ∧ Passes p t a.entries u ∧
        HoldsFiles u p a.entries) ∧
    (result = .error .noFiles ↔ (∃ v, Passes p t a.entries v) ∧ files a.entries = []) ∧
    (∀ fault, result = .error fault → fault ≠ .noFiles →
      ∃ before e after v, a.entries = before ++ e :: after ∧ Passes p t before v ∧
        e.Fails p v u fault ∧
        (HoldsFiles u p before ∨
          (∃ bytes, e.content = .damaged bytes) ∧ HoldsFiles u p (before ++ [e]))) := by
  have hunpack : a.unpack t p = (u, result) := by
    rcases h with h | ⟨path, hload, h⟩
    · exact h
    · rwa [unpackFile, hload] at h
  have hclear := clearOfLinks_unpack hunpack hlinks
  rcases unpackAll_cases p t a.entries with
    ⟨v, hpasses⟩ | ⟨before, e, after, v, w, fault, hsplit, hbefore, hfails⟩
  · rw [hpasses.unpack_eq] at hunpack
    by_cases hnone : files a.entries = []
    · rw [if_pos hnone] at hunpack
      cases hunpack
      exact ⟨nofun, ⟨fun _ => ⟨⟨_, hpasses⟩, hnone⟩, fun _ => rfl⟩,
        fun fault hfault hne => absurd (Except.error.inj hfault).symm hne⟩
    · rw [if_neg hnone] at hunpack
      cases hunpack
      refine ⟨fun paths hpaths => ?_, ⟨nofun, fun hempty => absurd hempty.2 hnone⟩, nofun⟩
      cases hpaths
      exact ⟨by simpa using hnone, rfl, hpasses, hpasses.holdsFiles (holdsFiles_nil t p) hclear⟩
  · rw [unpack_of_fails hsplit hbefore hfails] at hunpack
    cases hunpack
    refine ⟨nofun, ⟨fun hfault => ?_, ?_⟩, fun other hother _ => ?_⟩
    · exact absurd (Except.error.inj hfault) hfails.ne_noFiles
    · -- entries that pass leave no room for one that fails
      rintro ⟨⟨x, hpasses⟩, -⟩
      have hok := hpasses.unpackAll_eq
      rw [hsplit, unpackAll_of_fails hbefore hfails after] at hok
      cases hok
    · cases hother
      have hearlier := hbefore.holdsFiles (holdsFiles_nil t p) (hclear.before hfails.grows)
      exact ⟨before, e, after, v, hsplit, hbefore, hfails, hfails.holdsFiles hearlier hclear⟩

/-- A destination with nothing in it. -/
def clearing : FileTree where
  entries := [([Text.bytes "out"], .directory)]

/-- Two files that land at one place, the first of them through a directory that is made for it. -/
def crossing : Archive :=
  ⟨[⟨"x/../a.jar", .sound ⟨#[1]⟩⟩, ⟨"y/", .sound .empty⟩, ⟨"./a.jar", .sound ⟨#[2]⟩⟩]⟩

def crossed : FileTree := (crossing.unpack clearing (.ofString "out")).1

theorem crossing_files :
    crossing.unpack clearing (.ofString "out") =
        (crossed, .ok [.ofString "x/../a.jar", .ofString "./a.jar"]) ∧
      ∃ d, crossed.locate true (.ofString "out/x/../a.jar") =
          .ok (.present (d ++ [Text.bytes "a.jar"])) ∧
        crossed.at? (d ++ [Text.bytes "a.jar"]) = some (.file ⟨#[2]⟩) := by
  have hresult : (crossing.unpack clearing (.ofString "out")).2 =
      .ok [.ofString "x/../a.jar", .ofString "./a.jar"] := by decide +kernel
  have hunpack : crossing.unpack clearing (.ofString "out") =
      (crossed, .ok [.ofString "x/../a.jar", .ofString "./a.jar"]) := Prod.ext rfl hresult
  have hlinks (loc : Location) (target : Path) : clearing.at? loc ≠ some (.link target) :=
    not_link_of_entries (by simp [clearing]) loc target
  have hfiles := (unpack_files (.inl hunpack) fun _ loc target _ _ => hlinks loc target).1 _ rfl
  obtain ⟨d, last, -, hlocated, hlast, hheld⟩ :=
    hfiles.2.2.2 ⟨"x/../a.jar", .sound ⟨#[1]⟩⟩ (List.mem_filter.2 ⟨by simp [crossing], by decide⟩)
  have hlanding : Entry.landing ⟨"x/../a.jar", .sound ⟨#[1]⟩⟩ = [Text.bytes "a.jar"] := by
    decide +kernel
  rw [hlanding] at hlocated hlast hheld
  have hsecond : lastAt? crossing.entries [Text.bytes "a.jar"] =
      some ⟨"./a.jar", .sound ⟨#[2]⟩⟩ := rfl
  cases hsecond.symm.trans hlast
  exact ⟨hunpack, d, hlocated, hheld⟩

end Archive
end BillOfMaterials
