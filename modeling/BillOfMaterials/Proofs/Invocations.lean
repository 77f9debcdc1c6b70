import BillOfMaterials.CommandLine.Program
import BillOfMaterials.Proofs.Outcomes
import BillOfMaterials.Proofs.Runs

/-!
# What a call of the program does and what it tells

Arguments are read as items: a switch, an option with its value or in front of it, or a value.
Three switches only say how much is told. The program takes the other items as if those were not
there, so two calls that differ in nothing else do the same work and end with the same exit code.
The exit code says whether the work was done, and what is printed is chosen by two of those switches
alone.
-/
namespace BillOfMaterials

namespace Arguments

/-! ## Arguments as items -/

/-- The least part of an argument that can be taken by itself. -/
inductive Item where
  | switch (s : Switch)
  /-- An option with its value attached. -/
  | option (o : ValueOption) (value : String)
  /-- An option whose value is to follow. -/
  | opening (o : ValueOption)
  | value (text : String)
  | fault (why : Interruption)
deriving DecidableEq

def Given.takeItem (g : Given) : Item → Except Interruption Given
  | .switch s => g.turnOn s
  | .option o value => g.attach o value
  | .opening o => g.await o
  | .value text => g.takePlain text
  | .fault why => .error why

/-- The item of a long name, after its hyphens. -/
def longItem (argument : List Char) : Item :=
  let name := argument.takeWhile (· ≠ '=')
  match long? (String.ofList name), argument.drop name.length with
  | none, _ => .fault .unknownArgument
  | some (.switch s), [] => .switch s
  | some (.switch _), _ :: _ => .fault .tooManyValues
  | some (.option o), [] => .opening o
  | some (.option o), _ :: value => .option o (String.ofList value)

/-- The items of short names joined behind one hyphen. -/
def shortItems : List Char → List Item
  | [] => []
  | c :: rest =>
    match short? c, rest with
    | none, _ => [.fault .unknownArgument]
    | some (.switch s), rest => .switch s :: shortItems rest
    | some (.option o), [] => [.opening o]
    | some (.option o), '=' :: value => [.option o (String.ofList value)]
    | some (.option o), value => [.option o (String.ofList value)]

def itemsOf (argument : String) : List Item :=
  match argument.toList with
  | '-' :: '-' :: name => [longItem name]
  | '-' :: c :: rest => shortItems (c :: rest)
  | _ => [.value argument]

/-- The items of all arguments, in order. -/
def items : List String → List Item
  | [] => []
  | argument :: rest =>
    if argument = "--" then if rest = [] then [] else [.fault .unknownArgument]
    else itemsOf argument ++ items rest

namespace Given

theorem takeLong_eq (g : Given) (argument : List Char) :
    g.takeLong argument = g.takeItem (longItem argument) := by
  unfold takeLong longItem
  dsimp only
  generalize long? _ = key
  generalize argument.drop _ = value
  rcases key with _ | (o | s)
  · rfl
  · cases value <;> rfl
  · cases value <;> rfl

theorem takeShort_eq (g : Given) (names : List Char) :
    g.takeShort names = (shortItems names).foldlM takeItem g := by
  induction names generalizing g with
  | nil => rfl
  | cons c rest ih =>
    unfold takeShort shortItems
    generalize short? c = key
    rcases key with _ | (o | s)
    · rfl
    · split <;> simp_all [takeItem]
    · exact bind_congr ih

theorem takeArgument_eq (g : Given) (argument : String) :
    g.takeArgument argument = (itemsOf argument).foldlM takeItem g := by
  unfold takeArgument itemsOf
  generalize argument.toList = cs
  split <;> simp_all [takeLong_eq, takeShort_eq, takeItem]

/-- Taking arguments is taking their items in turn. -/
theorem takeAll_eq (g : Given) (arguments : List String) :
    g.takeAll arguments = (items arguments).foldlM takeItem g >>= settle := by
  induction arguments generalizing g with
  | nil => rfl
  | cons argument rest ih =>
    unfold takeAll items
    by_cases hend : argument = "--"
    · rw [if_pos hend, if_pos hend]
      split <;> rfl
    · rw [if_neg hend, if_neg hend, takeArgument_eq, List.foldlM_append, bind_assoc]
      exact bind_congr ih

end Given

/-! ## Switches that only tell -/

/-- Whether a switch only says how much the program tells. -/
def Switch.isTelling : Switch → Bool
  | .json | .verbose | .quiet => true
  | _ => false

def Item.isTelling : Item → Bool
  | .switch s => s.isTelling
  | _ => false

/-- What arguments say about the work: their items without the switches that only tell. -/
def workItems (arguments : List String) : List Item :=
  (items arguments).filter fun i => !i.isTelling

/-- The same request, with nothing said about how much to tell. -/
def untold (a : Arguments) : Arguments := { a with json := false, verbosity := 0, quiet := false }

theorem items_append {before : List String} (h : "--" ∉ before) (after : List String) :
    items (before ++ after) = items before ++ items after := by
  induction before with
  | nil => rfl
  | cons argument rest ih =>
    rw [List.mem_cons, not_or] at h
    have hne : argument ≠ "--" := Ne.symm h.1
    rw [List.cons_append, items, if_neg hne, items, if_neg hne, ih h.2, List.append_assoc]

namespace Given

variable {g g' r : Given} {i : Item} {is : List Item} {o : ValueOption} {s : Switch}
  {value : String}

def untold (g : Given) : Given := { g with switches := g.switches.filter fun s => !s.isTelling }

theorem untold_on_of_work (g : Given) (hs : s.isTelling = false) :
    untold { g with switches := g.switches ++ [s] } =
      { g.untold with switches := g.untold.switches ++ [s] } := by
  simp [untold, hs]

theorem untold_on_of_telling (g : Given) (hs : s.isTelling) :
    untold { g with switches := g.switches ++ [s] } = g.untold := by
  simp [untold, hs]

theorem contains_untold (g : Given) (hs : s.isTelling = false) :
    g.untold.switches.contains s = g.switches.contains s := by
  simp [untold, hs]

theorem not_contains_untold (g : Given) (hs : s.isTelling) :
    g.untold.switches.contains s = false := by
  simp [untold, hs]

theorem take_ok (h : g.take o value = .ok r) :
    r = { g with values := g.values ++ [(o, value)] } := by
  unfold take at h
  split at h
  · cases h
  · split at h
    · cases h
    · cases h
      rfl

theorem settle_ok (h : g.settle = .ok r) : r.pending = none ∧ r.switches = g.switches := by
  obtain ⟨values, switches, _ | ⟨o, _ | value⟩⟩ := g
  · cases h
    exact ⟨rfl, rfl⟩
  · cases h
  · rw [take_ok h]
    exact ⟨rfl, rfl⟩

theorem take_untold (g : Given) (o : ValueOption) (value : String) :
    g.untold.take o value = (g.take o value).map untold := by
  unfold take
  rw [apply_ite (Except.map untold), apply_ite (Except.map untold)]
  rfl

theorem settle_untold (g : Given) : g.untold.settle = g.settle.map untold := by
  unfold settle
  rcases g with ⟨values, switches, _ | ⟨o, _ | value⟩⟩
  · rfl
  · rfl
  · exact take_untold ⟨values, switches, none⟩ o value

theorem turnOn_ok (h : g.turnOn s = .ok r) :
    ∃ u, g.settle = .ok u ∧ r = { u with switches := u.switches ++ [s] } := by
  obtain ⟨u, hu, h⟩ := bind_eq_ok_iff.1 h
  refine ⟨u, hu, ?_⟩
  cases s with
  | help => cases h
  | version => cases h
  | verbose =>
    cases h
    rfl
  | dryRun | json | quiet =>
    dsimp only at h
    split at h
    · cases h
    · cases h
      rfl

theorem takePlain_ok (h : g.takePlain value = .ok r) :
    ∃ o, g.pending = some (o, none) ∧ r = { g with pending := some (o, some value) } := by
  unfold takePlain at h
  split at h
  · cases h
    exact ⟨_, ‹_›, rfl⟩
  · cases h

/-- An item is taken once the option before it is settled, unless it is the value of that option. -/
theorem takeItem_congr (h : g.settle = g'.settle) (hi : ∀ text, i ≠ .value text) :
    g.takeItem i = g'.takeItem i := by
  cases i with
  | switch s => simp only [takeItem, turnOn, h]
  | option o value => simp only [takeItem, attach, h]
  | opening o => simp only [takeItem, await, h]
  | value text => exact absurd rfl (hi text)
  | fault why => rfl

/-- All other items are taken as if the switches that only tell had not been given. -/
theorem takeItem_untold (g : Given) (hi : i.isTelling = false) :
    g.untold.takeItem i = (g.takeItem i).map untold := by
  cases i with
  | switch s =>
    simp only [takeItem, turnOn, settle_untold]
    cases g.settle with
    | error why => rfl
    | ok u =>
      cases s with
      | help | version => rfl
      | dryRun =>
        simp only [Except.map, bind, Except.bind, contains_untold u (s := .dryRun) rfl]
        cases u.switches.contains .dryRun with
        | true => rfl
        | false => exact congrArg Except.ok (untold_on_of_work u rfl).symm
      | json | verbose | quiet => cases hi
  | option o value =>
    simp only [takeItem, attach, settle_untold]
    cases g.settle with
    | error why => rfl
    | ok u => exact take_untold u o value
  | opening o =>
    simp only [takeItem, await, settle_untold]
    cases g.settle <;> rfl
  | value text =>
    simp only [takeItem, takePlain]
    rcases g with ⟨values, switches, _ | ⟨o, _ | value⟩⟩ <;> rfl
  | fault why => rfl

/-- `g'` is where the items bring the program that brought it to `g`, once the switches that only
tell are left out. After such a switch an option may be settled in `g` that is still pending in
`g'`. -/
structure Follows (g g' : Given) : Prop where
  settle : g'.settle = g.untold.settle
  waiting : ∀ o, g.pending = some (o, none) → g' = g.untold

theorem follows_untold (g : Given) : g.Follows g.untold := ⟨rfl, fun _ _ => rfl⟩

theorem Follows.takeItem (hf : g.Follows g') (hi : i.isTelling = false)
    (h : g.takeItem i = .ok r) : g'.takeItem i = .ok r.untold := by
  have hsame : g'.takeItem i = g.untold.takeItem i := by
    cases i with
    | value text =>
      -- Only an option that waits takes a value, and where one waits the two have not parted.
      obtain ⟨o, ho, -⟩ := takePlain_ok h
      rw [hf.waiting o ho]
    | switch | option | opening | fault => exact takeItem_congr hf.settle (by simp)
  rw [hsame, takeItem_untold g hi, h]
  rfl

theorem Follows.turnOn (hf : g.Follows g') (hs : s.isTelling) (h : g.turnOn s = .ok r) :
    r.Follows g' := by
  obtain ⟨u, hu, rfl⟩ := turnOn_ok h
  have hnone : u.pending = none := (settle_ok hu).1
  refine ⟨?_, fun o ho => ?_⟩
  · have hstill : u.untold.settle = .ok u.untold := by
      simp only [Given.settle, untold, hnone]
    rw [hf.settle, settle_untold, hu, untold_on_of_telling u hs, hstill]
    rfl
  · rw [hnone] at ho
    cases ho

/-- Where all items are taken, so are those that are no switches that only tell, and what is given
is the same but for these. -/
theorem Follows.foldlM (hf : g.Follows g') (h : is.foldlM Given.takeItem g = .ok r) :
    ∃ r', (is.filter fun i => !i.isTelling).foldlM Given.takeItem g' = .ok r' ∧ r.Follows r' := by
  induction is generalizing g g' with
  | nil =>
    cases h
    exact ⟨g', rfl, hf⟩
  | cons i rest ih =>
    rw [List.foldlM_cons] at h
    obtain ⟨u, hu, hrest⟩ := bind_eq_ok_iff.1 h
    cases hi : i.isTelling with
    | false =>
      rw [List.filter_cons_of_pos (by simpa using hi), List.foldlM_cons, hf.takeItem hi hu]
      exact ih (follows_untold u) hrest
    | true =>
      rw [List.filter_cons_of_neg (by simpa using hi)]
      cases i with
      | switch s => exact ih (hf.turnOn hi hu) hrest
      | option | opening | value | fault => cases hi

/-- The items that say something about the work give by themselves all that is given for it. -/
theorem takeAll_untold {arguments : List String} (h : takeAll {} arguments = .ok g) :
    (workItems arguments).foldlM takeItem {} >>= settle = .ok g.untold := by
  rw [takeAll_eq] at h
  obtain ⟨u, hu, hg⟩ := bind_eq_ok_iff.1 h
  obtain ⟨u', hu', hf⟩ := (follows_untold {}).foldlM hu
  refine bind_eq_ok_iff.2 ⟨u', hu', ?_⟩
  rw [hf.settle, settle_untold, hg]
  rfl

theorem toArguments_untold (g : Given) : g.untold.toArguments = g.toArguments.untold := by
  have hdry : g.untold.switches.contains .dryRun = g.switches.contains .dryRun :=
    contains_untold g rfl
  have hjson : g.untold.switches.contains .json = false := not_contains_untold g rfl
  have hquiet : g.untold.switches.contains .quiet = false := not_contains_untold g rfl
  have hverbose : g.untold.count .verbose = 0 := by
    rw [count, List.count_eq_zero, ← List.contains_iff_mem, not_contains_untold g rfl]
    exact Bool.false_ne_true
  simp only [toArguments, Arguments.untold, hdry, hjson, hquiet, hverbose, Nat.zero_min]
  rfl

/-! ## Which switches are on -/

theorem mem_switches_of_takeItem (h : g.takeItem i = .ok r) :
    s ∈ r.switches ↔ s ∈ g.switches ∨ i = .switch s := by
  cases i with
  | switch s' =>
    obtain ⟨u, hu, rfl⟩ := turnOn_ok h
    rw [← (settle_ok hu).2]
    simp [eq_comm]
  | option o value =>
    obtain ⟨u, hu, h⟩ := bind_eq_ok_iff.1 h
    rw [take_ok h, ← (settle_ok hu).2]
    simp
  | opening o =>
    obtain ⟨u, hu, h⟩ := bind_eq_ok_iff.1 h
    cases h
    simp [(settle_ok hu).2]
  | value text =>
    obtain ⟨o, -, rfl⟩ := takePlain_ok h
    simp
  | fault why => cases h

theorem mem_switches_of_foldlM (h : is.foldlM takeItem g = .ok r) :
    s ∈ r.switches ↔ s ∈ g.switches ∨ .switch s ∈ is := by
  induction is generalizing g with
  | nil =>
    cases h
    simp
  | cons i rest ih =>
    rw [List.foldlM_cons] at h
    obtain ⟨u, hu, hrest⟩ := bind_eq_ok_iff.1 h
    rw [ih hrest, mem_switches_of_takeItem hu, or_assoc, List.mem_cons, @eq_comm _ i]

theorem mem_switches_of_takeAll {arguments : List String} (h : takeAll {} arguments = .ok g) :
    s ∈ g.switches ↔ .switch s ∈ items arguments := by
  rw [takeAll_eq] at h
  obtain ⟨u, hu, hg⟩ := bind_eq_ok_iff.1 h
  rw [(settle_ok hg).2, mem_switches_of_foldlM hu]
  simp

end Given

variable {arguments others : List String} {a b : Arguments}

theorem read_ok (h : read arguments = .ok a) :
    ∃ g, Given.takeAll {} arguments = .ok g ∧ g.toArguments = a := by
  obtain ⟨g, hg, h⟩ := bind_eq_ok_iff.1 h
  refine ⟨g, hg, ?_⟩
  dsimp only at h
  split at h
  · cases h
  · cases h
    rfl

/-- Arguments that say the same about the work ask for the same work. -/
theorem untold_eq_of_workItems (ha : read arguments = .ok a) (hb : read others = .ok b)
    (h : workItems others = workItems arguments) : b.untold = a.untold := by
  obtain ⟨g, hg, rfl⟩ := read_ok ha
  obtain ⟨g', hg', rfl⟩ := read_ok hb
  have hsame : (.ok g'.untold : Except Interruption Given) = .ok g.untold := by
    rw [← Given.takeAll_untold hg', ← Given.takeAll_untold hg, h]
  rw [← Given.toArguments_untold, ← Given.toArguments_untold, Except.ok.inj hsame]

theorem json_iff (h : read arguments = .ok a) : a.json ↔ .switch .json ∈ items arguments := by
  obtain ⟨g, hg, rfl⟩ := read_ok h
  rw [← Given.mem_switches_of_takeAll hg]
  exact List.contains_iff_mem

theorem quiet_iff (h : read arguments = .ok a) : a.quiet ↔ .switch .quiet ∈ items arguments := by
  obtain ⟨g, hg, rfl⟩ := read_ok h
  rw [← Given.mem_switches_of_takeAll hg]
  exact List.contains_iff_mem

end Arguments

namespace Program

variable {t : FileTree} {hasScratch : Bool} {home : Option Path} {a b : Arguments}
  {arguments others : List String} {summary : Summary}

/-! ## What the program does -/

/-- What the arguments ask for is done: the settings are loaded, and the run ends with `summary`. -/
def Succeeds (t : FileTree) (hasScratch : Bool) (home : Option Path) (a : Arguments)
    (summary : Summary) : Prop :=
  ∃ settings, (Settings.load t a.settings).outcome = .ok settings ∧
    (Generation.run t hasScratch settings (a.toRequest home)).2.outcome = .ok summary

theorem work_ok_iff :
    (work t hasScratch home a).2.outcome = .ok summary ↔ Succeeds t hasScratch home a summary := by
  unfold work Succeeds
  dsimp only
  cases (Settings.load t a.settings).outcome with
  | error error => simp
  | ok settings =>
    dsimp only
    cases hr : (Generation.run t hasScratch settings (a.toRequest home)).2.outcome with
    | error failure => simp [Except.mapError, hr]
    | ok s => simp [Except.mapError, hr]

theorem execute_of_ok (h : Succeeds t hasScratch home a summary) :
    (execute t hasScratch home a).exitCode = 0 ∧
      (execute t hasScratch home a).output = output a summary := by
  unfold execute
  simp only [work_ok_iff.2 h, and_self]

theorem execute_of_not_ok (h : ¬∃ summary, Succeeds t hasScratch home a summary) :
    (execute t hasScratch home a).exitCode = 1 ∧
      (execute t hasScratch home a).output = "" := by
  unfold execute
  cases hw : (work t hasScratch home a).2.outcome with
  | error failure => simp only [hw, and_self]
  | ok summary => exact absurd ⟨summary, work_ok_iff.1 hw⟩ h

theorem exitCode_eq_zero_iff :
    (execute t hasScratch home a).exitCode = 0 ↔
      ∃ summary, Succeeds t hasScratch home a summary := by
  constructor
  · intro hcode
    by_contra hs
    rw [(execute_of_not_ok hs).1] at hcode
    cases hcode
  · rintro ⟨summary, hs⟩
    exact (execute_of_ok hs).1

theorem exitCode_eq_one_iff :
    (execute t hasScratch home a).exitCode = 1 ↔
      ¬∃ summary, Succeeds t hasScratch home a summary := by
  constructor
  · rintro hcode ⟨summary, hs⟩
    rw [(execute_of_ok hs).1] at hcode
    cases hcode
  · intro hs
    exact (execute_of_not_ok hs).1

/-- The work does not depend on how much is to be told. -/
theorem work_untold : work t hasScratch home a.untold = work t hasScratch home a := rfl

theorem execute_congr (h : b.untold = a.untold) :
    (execute t hasScratch home b).tree = (execute t hasScratch home a).tree ∧
      (execute t hasScratch home b).exitCode = (execute t hasScratch home a).exitCode := by
  have hwork : work t hasScratch home b = work t hasScratch home a := by
    rw [← work_untold, h, work_untold]
  unfold execute
  rw [hwork]
  dsimp only
  split <;> exact ⟨rfl, rfl⟩

theorem run_of_read (h : Arguments.read arguments = .ok a) :
    run t hasScratch home arguments = execute t hasScratch home a := by
  unfold run
  rw [h]

/-- What is told of a run does not change what is done, and what is told is true. Let some arguments
be read. Any others that are read and say the same about the work, or that ask for the same but for
how much to tell, lead to the same tree and the same exit code. The exit code is 0 where the settings
are loaded and the run succeeds, and 1 elsewhere. Where it is 1 nothing is printed. Where it is 0 the
summary is printed: as a document if that was asked for, else not at all if quiet was asked for, else
as text. -/
theorem run_truthful (t : FileTree) (hasScratch : Bool) (home : Option Path)
    (h : Arguments.read arguments = .ok a) :
    (∀ others b, Arguments.read others = .ok b →
        Arguments.workItems others = Arguments.workItems arguments ∨ b.untold = a.untold →
        (run t hasScratch home others).tree = (run t hasScratch home arguments).tree ∧
          (run t hasScratch home others).exitCode = (run t hasScratch home arguments).exitCode) ∧
      ((run t hasScratch home arguments).exitCode = 0 ↔
        ∃ summary, Succeeds t hasScratch home a summary) ∧
      ((run t hasScratch home arguments).exitCode = 1 ↔
        ¬∃ summary, Succeeds t hasScratch home a summary) ∧
      ((run t hasScratch home arguments).exitCode = 1 →
        (run t hasScratch home arguments).output = "") ∧
      ∀ summary, Succeeds t hasScratch home a summary →
        (run t hasScratch home arguments).output =
          if .switch .json ∈ Arguments.items arguments then summary.toJson.render ++ "\n"
          else if .switch .quiet ∈ Arguments.items arguments then ""
          else summary.toText ++ "\n" := by
  rw [run_of_read h]
  refine ⟨fun others b hb hsame => ?_, exitCode_eq_zero_iff, exitCode_eq_one_iff,
    fun hcode => (execute_of_not_ok (exitCode_eq_one_iff.1 hcode)).2, fun summary hs => ?_⟩
  · have hask : b.untold = a.untold := hsame.elim (Arguments.untold_eq_of_workItems h hb) id
    rw [run_of_read hb]
    exact execute_congr hask
  · rw [(execute_of_ok hs).2, output]
    simp only [Arguments.json_iff h, Arguments.quiet_iff h]

/-- One archive that holds one binary that is known. -/
def known : FileTree :=
  Generation.treeOf [("apache-tomee-plus-8.0.6.zip", Generation.archiveOf ["ecj-3.jar"])]

/-- A run that writes nothing, told of in full and as a document. -/
def loud : List String := ["--dists=dists", "-vvr", "m2", "--json", "-voboms", "--dry-run"]

/-- The same run, with errors told of alone. -/
def silent : List String := ["--dists=dists", "-r", "m2", "-qoboms", "--dry-run"]

theorem loud_silent :
    (Arguments.read loud).isOk ∧ (Arguments.read silent).isOk ∧
      (run known true none silent).tree = (run known true none loud).tree ∧
      (run known true none loud).exitCode = 0 ∧ (run known true none silent).exitCode = 0 ∧
      (run known true none silent).output = "" ∧
      ∃ summary : Summary, (run known true none loud).output = summary.toJson.render ++ "\n" := by
  have hloud : (Arguments.read loud).isOk := by decide +kernel
  have hsilent : (Arguments.read silent).isOk := by decide +kernel
  have hzero : (run known true none loud).exitCode = 0 := by decide +kernel
  have hitems : Arguments.workItems silent = Arguments.workItems loud := by decide +kernel
  have hjson : .switch .json ∈ Arguments.items loud := by decide +kernel
  have hquiet : .switch .json ∉ Arguments.items silent ∧
      .switch .quiet ∈ Arguments.items silent := by
    decide +kernel
  obtain ⟨a, ha⟩ := Generation.exists_of_isOk hloud
  obtain ⟨b, hb⟩ := Generation.exists_of_isOk hsilent
  obtain ⟨hsame, hok, -, -, hprinted⟩ := run_truthful known true none ha
  obtain ⟨htree, hcode⟩ := hsame silent b hb (.inl hitems)
  obtain ⟨summary, hs⟩ := hok.1 hzero
  have hzero' : (run known true none silent).exitCode = 0 := hcode.trans hzero
  obtain ⟨-, hok', -, -, hprinted'⟩ := run_truthful known true none hb
  obtain ⟨summary', hs'⟩ := hok'.1 hzero'
  refine ⟨hloud, hsilent, htree, hzero, hzero', ?_, summary, ?_⟩
  · rw [hprinted' summary' hs', if_neg hquiet.1, if_pos hquiet.2]
  · rw [hprinted summary hs, if_pos hjson]

end Program
end BillOfMaterials
