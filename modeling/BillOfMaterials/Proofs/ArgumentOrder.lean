import BillOfMaterials.Proofs.Invocations
import BillOfMaterials.Table

/-!
# In what order and spelling arguments are given

What is wished for can be spelled in many ways: an option by its long or its short name, its value
behind it or attached, short switches one by one or joined. However it is spelled, and in whatever
order, it is read as the same. The invariant is that what has been given so far, once a pending
option is settled, is what has been spelled so far. Values that are empty or begin with a hyphen,
and the switches that ask for no run, are left out.
-/
namespace BillOfMaterials.Arguments

/-! ## Names -/

def ValueOption.long : ValueOption → String
  | .archives => "dists"
  | .repository => "repository"
  | .output => "output"
  | .template => "template"
  | .settings => "config"
  | .style => "style"

def ValueOption.letter? : ValueOption → Option Char
  | .repository => some 'r'
  | .output => some 'o'
  | .template => some 't'
  | .settings => some 'c'
  | .archives | .style => none

def Switch.long : Switch → String
  | .dryRun => "dry-run"
  | .json => "json"
  | .verbose => "verbose"
  | .quiet => "quiet"
  | .help => "help"
  | .version => "version"

def Switch.letter? : Switch → Option Char
  | .verbose => some 'v'
  | .quiet => some 'q'
  | .help => some 'h'
  | .version => some 'V'
  | .dryRun | .json => none

theorem short?_option {o : ValueOption} {c : Char} (h : o.letter? = some c) :
    short? c = some (.option o) := by
  cases o <;> cases h <;> rfl

theorem short?_switch {s : Switch} {c : Char} (h : s.letter? = some c) :
    short? c = some (.switch s) := by
  cases s <;> cases h <;> rfl

theorem longItem_switch (s : Switch) : longItem s.long.toList = .switch s := by
  cases s <;> rfl

theorem longItem_option (o : ValueOption) : longItem o.long.toList = .opening o := by
  cases o <;> rfl

theorem longItem_joined (o : ValueOption) (value : List Char) :
    longItem (o.long.toList ++ '=' :: value) = .option o (String.ofList value) := by
  cases o <;> rfl

/-! ## Spellings -/

/-- Whether a text can follow an option as its value. -/
def IsValue (text : String) : Prop := ∃ c rest, text.toList = c :: rest ∧ c ≠ '-'

def Lettered (switches : List Switch) (letters : List Char) : Prop :=
  List.Forall₂ (fun s c => s.letter? = some c) switches letters

/-- The arguments that spell a few items: one option or switch, or short switches that are joined,
with or without an option at their end. -/
inductive Spelled : List Item → List String → Prop
  /-- A value behind a long name. -/
  | apart {o value} : Spelled [.option o value] ["--" ++ o.long, value]
  /-- A value attached to a long name. -/
  | joined {o value} : Spelled [.option o value] ["--" ++ o.long ++ "=" ++ value]
  | named {s} : Spelled [.switch s] ["--" ++ s.long]
  | letters {switches letters} (h : Lettered switches letters) (hne : switches ≠ []) :
    Spelled (switches.map .switch) ["-" ++ String.ofList letters]
  /-- A value behind a short name. -/
  | shortApart {switches letters o c value} (h : Lettered switches letters)
      (hc : o.letter? = some c) :
    Spelled (switches.map .switch ++ [.option o value])
      ["-" ++ String.ofList letters ++ String.singleton c, value]
  /-- A value attached to a short name, behind a sign. -/
  | shortJoined {switches letters o c value} (h : Lettered switches letters)
      (hc : o.letter? = some c) :
    Spelled (switches.map .switch ++ [.option o value])
      ["-" ++ String.ofList letters ++ String.singleton c ++ "=" ++ value]
  /-- A value attached to a short name. -/
  | shortAttached {switches letters o c value} (h : Lettered switches letters)
      (hc : o.letter? = some c) (hv : value.toList.head? ≠ some '=') :
    Spelled (switches.map .switch ++ [.option o value])
      ["-" ++ String.ofList letters ++ String.singleton c ++ value]

/-- The arguments that spell items, in their order. -/
inductive Spells : List Item → List String → Prop
  | none : Spells [] []
  | cons {is js arguments others} (first : Spelled is arguments) (rest : Spells js others) :
    Spells (is ++ js) (arguments ++ others)

/-- Items as they are taken, and the items that they stand for: an option in front of a value is an
option with its value. -/
inductive Reads : List Item → List Item → Prop
  | none : Reads [] []
  | switch {s raw is} (h : Reads raw is) : Reads (.switch s :: raw) (.switch s :: is)
  | attached {o value raw is} (h : Reads raw is) :
    Reads (.option o value :: raw) (.option o value :: is)
  | apart {o value raw is} (h : Reads raw is) :
    Reads (.opening o :: .value value :: raw) (.option o value :: is)

section Taking

variable {is js raw raw' : List Item} {arguments : List String} {o : ValueOption} {s : Switch}
  {c : Char} {value : String} {switches : List Switch} {letters : List Char}

theorem Reads.append (h : Reads raw is) (h' : Reads raw' js) : Reads (raw ++ raw') (is ++ js) := by
  induction h with
  | none => exact h'
  | switch _ ih => exact .switch ih
  | attached _ ih => exact .attached ih
  | apart _ ih => exact .apart ih

theorem Reads.behind (switches : List Switch) (h : Reads raw is) :
    Reads (switches.map .switch ++ raw) (switches.map .switch ++ is) := by
  induction switches with
  | nil => exact h
  | cons s switches ih => exact .switch ih

theorem itemsOf_long (argument : String) (name : List Char)
    (h : argument.toList = '-' :: '-' :: name) (hne : name ≠ []) :
    argument ≠ "--" ∧ itemsOf argument = [longItem name] := by
  constructor
  · rintro rfl
    cases h
    exact hne rfl
  · unfold itemsOf
    rw [h]
    rfl

theorem itemsOf_short {argument : String} {rest : List Char}
    (h : argument.toList = '-' :: c :: rest) (hc : c ≠ '-') :
    itemsOf argument = shortItems (c :: rest) := by
  unfold itemsOf
  rw [h]
  split
  · rename_i name heq
    cases heq
    exact absurd rfl hc
  · rename_i heq
    cases heq
    rfl
  · rename_i hno
    exact absurd rfl (hno c rest)

theorem itemsOf_value (h : IsValue value) : itemsOf value = [.value value] := by
  obtain ⟨c, rest, hvalue, hc⟩ := h
  unfold itemsOf
  rw [hvalue]
  split
  · rename_i heq
    cases heq
    exact absurd rfl hc
  · rename_i heq
    cases heq
    exact absurd rfl hc
  · rfl

theorem shortItems_switch (hc : s.letter? = some c) (rest : List Char) :
    shortItems (c :: rest) = .switch s :: shortItems rest := by
  rw [shortItems.eq_def]
  simp only [short?_switch hc]

theorem shortItems_lettered (h : Lettered switches letters) (rest : List Char) :
    shortItems (letters ++ rest) = switches.map .switch ++ shortItems rest := by
  induction h with
  | nil => rfl
  | cons hc _ ih =>
    rw [List.cons_append, shortItems_switch hc, ih, List.map_cons, List.cons_append]

theorem shortItems_option (hc : o.letter? = some c) : shortItems [c] = [.opening o] := by
  unfold shortItems
  simp only [short?_option hc]

theorem shortItems_joined (hc : o.letter? = some c) (text : List Char) :
    shortItems (c :: '=' :: text) = [.option o (String.ofList text)] := by
  unfold shortItems
  simp only [short?_option hc]

theorem shortItems_attached (hc : o.letter? = some c) {text : List Char} (hne : text ≠ [])
    (hsign : text.head? ≠ some '=') :
    shortItems (c :: text) = [.option o (String.ofList text)] := by
  unfold shortItems
  simp only [short?_option hc]
  split <;> simp_all

theorem itemsOf_lettered (h : Lettered switches letters) (argument : String) (tail : List Char)
    (hargument : argument.toList = '-' :: (letters ++ tail))
    (hhead : ∃ d rest, letters ++ tail = d :: rest ∧ d ≠ '-') :
    argument ≠ "--" ∧ itemsOf argument = switches.map .switch ++ shortItems tail := by
  obtain ⟨d, rest, hrest, hd⟩ := hhead
  have hargument' : argument.toList = '-' :: d :: rest := hrest ▸ hargument
  constructor
  · rintro rfl
    cases hargument'
    exact hd rfl
  · rw [itemsOf_short hargument' hd, ← hrest, shortItems_lettered h]

theorem letter_ne {d : Char} (h : s.letter? = some d) : d ≠ '-' := by
  rintro rfl
  cases s <;> cases h

theorem head_of_lettered (h : Lettered switches letters) (hc : o.letter? = some c)
    (tail : List Char) : ∃ d rest, letters ++ c :: tail = d :: rest ∧ d ≠ '-' := by
  cases h with
  | nil =>
    refine ⟨c, tail, rfl, ?_⟩
    rintro rfl
    cases o <;> cases hc
  | cons hd _ => exact ⟨_, _, rfl, letter_ne hd⟩

theorem items_one {argument : String} (h : argument ≠ "--") :
    "--" ∉ [argument] ∧ items [argument] = itemsOf argument := by
  refine ⟨fun hin => h (List.mem_singleton.1 hin).symm, ?_⟩
  rw [items, if_neg h, items, List.append_nil]

theorem items_two {argument : String} (h : argument ≠ "--") (hv : IsValue value) :
    "--" ∉ [argument, value] ∧ items [argument, value] = itemsOf argument ++ [.value value] := by
  have hvalue : value ≠ "--" := by
    rintro rfl
    obtain ⟨c, rest, hcs, hc⟩ := hv
    cases hcs
    exact hc rfl
  obtain ⟨hnot, hitems⟩ := items_one hvalue
  refine ⟨fun hin => (List.mem_cons.1 hin).elim (fun heq => h heq.symm) hnot, ?_⟩
  rw [items, if_neg h, hitems, itemsOf_value hv]

/-- Arguments that spell items are taken as these. -/
theorem Spelled.reads (h : Spelled is arguments)
    (hv : ∀ o value, .option o value ∈ is → IsValue value) :
    "--" ∉ arguments ∧ Reads (items arguments) is := by
  cases h with
  | @apart o value =>
    obtain ⟨hne, hitems⟩ := itemsOf_long ("--" ++ o.long) o.long.toList String.toList_append
      (by cases o <;> decide)
    obtain ⟨hnot, hpair⟩ := items_two hne (hv o value (by simp))
    rw [hpair, hitems, longItem_option]
    exact ⟨hnot, .apart .none⟩
  | @joined o value =>
    obtain ⟨hne, hitems⟩ := itemsOf_long ("--" ++ o.long ++ "=" ++ value)
      (o.long.toList ++ '=' :: value.toList) (by simp) (by simp)
    obtain ⟨hnot, hone⟩ := items_one hne
    rw [hone, hitems, longItem_joined, String.ofList_toList]
    exact ⟨hnot, .attached .none⟩
  | @named s =>
    obtain ⟨hne, hitems⟩ := itemsOf_long ("--" ++ s.long) s.long.toList String.toList_append
      (by cases s <;> decide)
    obtain ⟨hnot, hone⟩ := items_one hne
    rw [hone, hitems, longItem_switch]
    exact ⟨hnot, .switch .none⟩
  | @letters switches letters h hne =>
    have hhead : ∃ d rest, letters ++ [] = d :: rest ∧ d ≠ '-' := by
      cases h with
      | nil => exact absurd rfl hne
      | cons hd _ => exact ⟨_, _, rfl, letter_ne hd⟩
    obtain ⟨hne, hitems⟩ := itemsOf_lettered h ("-" ++ String.ofList letters) [] (by simp) hhead
    obtain ⟨hnot, hone⟩ := items_one hne
    rw [hone, hitems]
    exact ⟨hnot, by simpa [shortItems] using Reads.behind switches .none⟩
  | @shortApart switches letters o c value h hc =>
    obtain ⟨hne, hitems⟩ := itemsOf_lettered h
      ("-" ++ String.ofList letters ++ String.singleton c) [c] (by simp)
      (head_of_lettered h hc [])
    obtain ⟨hnot, hpair⟩ := items_two hne (hv o value (by simp))
    rw [hpair, hitems, shortItems_option hc, List.append_assoc]
    exact ⟨hnot, .behind switches (.apart .none)⟩
  | @shortJoined switches letters o c value h hc =>
    obtain ⟨hne, hitems⟩ := itemsOf_lettered h
      ("-" ++ String.ofList letters ++ String.singleton c ++ "=" ++ value)
      (c :: '=' :: value.toList) (by simp) (head_of_lettered h hc _)
    obtain ⟨hnot, hone⟩ := items_one hne
    rw [hone, hitems, shortItems_joined hc, String.ofList_toList]
    exact ⟨hnot, .behind switches (.attached .none)⟩
  | @shortAttached switches letters o c value h hc hsign =>
    obtain ⟨d, rest, hvalue, -⟩ := hv o value (by simp)
    obtain ⟨hne, hitems⟩ := itemsOf_lettered h
      ("-" ++ String.ofList letters ++ String.singleton c ++ value) (c :: value.toList) (by simp)
      (head_of_lettered h hc _)
    obtain ⟨hnot, hone⟩ := items_one hne
    rw [hone, hitems, shortItems_attached hc (by simp [hvalue]) hsign, String.ofList_toList]
    exact ⟨hnot, .behind switches (.attached .none)⟩

theorem Spells.reads (h : Spells is arguments)
    (hv : ∀ o value, .option o value ∈ is → IsValue value) :
    "--" ∉ arguments ∧ Reads (items arguments) is := by
  induction h with
  | none => exact ⟨List.not_mem_nil, .none⟩
  | cons first _ ih =>
    obtain ⟨hnot, hreads⟩ := first.reads fun o value h => hv o value (List.mem_append_left _ h)
    obtain ⟨hnot', hreads'⟩ := ih fun o value h => hv o value (List.mem_append_right _ h)
    rw [items_append hnot]
    exact ⟨fun hin => (List.mem_append.1 hin).elim hnot hnot', hreads.append hreads'⟩

/-! ## What has been given -/

def Item.pair? : Item → Option (ValueOption × String)
  | .option o value => some (o, value)
  | _ => none

def Item.switch? : Item → Option Switch
  | .switch s => some s
  | _ => none

/-- What items give that have all been taken. -/
def gathered (is : List Item) : Given := ⟨is.filterMap Item.pair?, is.filterMap Item.switch?, none⟩

/-- Items that go together: no option stands twice, and no switch but the one for more log output;
all values are allowed, and no help is asked for. -/
structure Fits (is : List Item) : Prop where
  options : ((is.filterMap Item.pair?).map (·.1)).Nodup
  values : ∀ o value, .option o value ∈ is → IsValue value ∧ (o = .style → style? value ≠ none)
  switches : ((is.filterMap Item.switch?).filter (· ≠ .verbose)).Nodup
  run : ∀ s, .switch s ∈ is → s ≠ .help ∧ s ≠ .version

theorem Fits.perm (h : Fits is) (hperm : js.Perm is) : Fits js where
  options := ((hperm.filterMap _).map _).nodup_iff.2 h.options
  values o value hin := h.values o value (hperm.mem_iff.1 hin)
  switches := ((hperm.filterMap _).filter _).nodup_iff.2 h.switches
  run s hin := h.run s (hperm.mem_iff.1 hin)

/-- What has been given so far is what has been spelled so far, once a pending option is settled. -/
def Holds (g : Given) (is : List Item) : Prop := g.settle = .ok (gathered is)

theorem holds_gathered (is : List Item) : Holds (gathered is) is := rfl

variable {g : Given}

theorem gathered_switch (is : List Item) (s : Switch) :
    gathered (is ++ [.switch s]) =
      { gathered is with switches := (gathered is).switches ++ [s] } := by
  simp [gathered, Item.pair?, Item.switch?]

theorem gathered_option (is : List Item) (o : ValueOption) (value : String) :
    gathered (is ++ [.option o value]) =
      { gathered is with values := (gathered is).values ++ [(o, value)] } := by
  simp [gathered, Item.pair?, Item.switch?]

theorem Fits.not_mem_switches (h : Fits (is ++ .switch s :: js)) (hs : s ≠ .verbose) :
    s ∉ (gathered is).switches := by
  intro hin
  have hnodup := h.switches
  rw [List.filterMap_append, List.filter_append] at hnodup
  refine (List.nodup_append.1 hnodup).2.2 s ?_ s ?_ rfl
  · exact List.mem_filter.2 ⟨hin, by simpa using hs⟩
  · simp [Item.switch?, hs]

theorem Fits.lookup_eq_none (h : Fits (is ++ .option o value :: js)) :
    (gathered is).values.lookup o = none := by
  have hnodup := h.options
  rw [List.filterMap_append, List.map_append] at hnodup
  refine List.lookup_eq_none_iff.2 fun entry hentry => bne_iff_ne.2 fun heq => ?_
  exact (List.nodup_append.1 hnodup).2.2 o (heq ▸ List.mem_map_of_mem hentry) o
    (by simp [Item.pair?]) rfl

theorem Holds.switch (h : Holds g is) (hfits : Fits (is ++ .switch s :: js)) :
    ∃ g', g.takeItem (.switch s) = .ok g' ∧ Holds g' (is ++ [.switch s]) := by
  obtain ⟨hhelp, hversion⟩ := hfits.run s (by simp)
  refine ⟨_, ?_, holds_gathered _⟩
  show g.turnOn s = _
  rw [gathered_switch]
  unfold Given.turnOn
  rw [h]
  have hfresh (hs : s ≠ .verbose) : (gathered is).switches.contains s = false := by
    simpa using hfits.not_mem_switches hs
  cases s with
  | help => exact absurd rfl hhelp
  | version => exact absurd rfl hversion
  | verbose => rfl
  | dryRun | json | quiet =>
    show (if _ then _ else _) = _
    rw [hfresh (by simp)]
    rfl

theorem take_gathered (hfits : Fits (is ++ .option o value :: js)) :
    (gathered is).take o value = .ok (gathered (is ++ [.option o value])) := by
  obtain ⟨-, hstyle⟩ := hfits.values o value (by simp)
  unfold Given.take
  rw [hfits.lookup_eq_none, if_neg (by simp), if_neg fun hbad => hstyle hbad.1 hbad.2,
    gathered_option]

theorem Holds.attached (h : Holds g is) (hfits : Fits (is ++ .option o value :: js)) :
    ∃ g', g.takeItem (.option o value) = .ok g' ∧ Holds g' (is ++ [.option o value]) := by
  refine ⟨_, ?_, holds_gathered _⟩
  show g.attach o value = .ok _
  unfold Given.attach
  rw [h]
  exact take_gathered hfits

theorem Holds.apart (h : Holds g is) (hfits : Fits (is ++ .option o value :: js)) :
    ∃ g', [.opening o, .value value].foldlM Given.takeItem g = .ok g' ∧
      Holds g' (is ++ [.option o value]) := by
  refine ⟨{ gathered is with pending := some (o, some value) }, ?_, ?_⟩
  · simp only [List.foldlM_cons, List.foldlM_nil, Given.takeItem, Given.await]
    rw [h]
    rfl
  · exact take_gathered hfits

/-- Items that go together are all taken, whatever stands between them. -/
theorem Holds.run {done : List Item} (hreads : Reads raw is) (h : Holds g done)
    (hfits : Fits (done ++ is)) :
    ∃ g', raw.foldlM Given.takeItem g = .ok g' ∧ Holds g' (done ++ is) := by
  induction hreads generalizing g done with
  | none => exact ⟨g, rfl, by rwa [List.append_nil]⟩
  | @switch s raw is _ ih =>
    obtain ⟨u, hu, hdone⟩ := h.switch hfits
    obtain ⟨g', hg', hall⟩ := ih hdone (by simpa using hfits)
    exact ⟨g', by rw [List.foldlM_cons, hu]; exact hg', by simpa using hall⟩
  | @attached o value raw is _ ih =>
    obtain ⟨u, hu, hdone⟩ := h.attached hfits
    obtain ⟨g', hg', hall⟩ := ih hdone (by simpa using hfits)
    exact ⟨g', by rw [List.foldlM_cons, hu]; exact hg', by simpa using hall⟩
  | @apart o value raw is _ ih =>
    obtain ⟨u, hu, hdone⟩ := h.apart hfits
    obtain ⟨g', hg', hall⟩ := ih hdone (by simpa using hfits)
    refine ⟨g', ?_, by simpa using hall⟩
    show ([Item.opening o, .value value] ++ raw).foldlM Given.takeItem g = .ok g'
    rw [List.foldlM_append, hu]
    exact hg'

theorem takeAll_of_spells (h : Spells is arguments) (hfits : Fits is) :
    Given.takeAll {} arguments = .ok (gathered is) := by
  obtain ⟨-, hreads⟩ := h.reads fun o value hin => (hfits.values o value hin).1
  have hstart : Holds {} [] := holds_gathered []
  obtain ⟨g, hg, hall⟩ := hstart.run hreads hfits
  rw [Given.takeAll_eq, hg]
  exact hall

end Taking

/-! ## Wishes -/

inductive Telling where
  | quiet
  /-- So many times more log output. -/
  | verbose (n : Nat)

namespace Telling

def switches : Telling → List Switch
  | .quiet => [.quiet]
  | .verbose n => List.replicate n .verbose

def level : Telling → LogLevel
  | .quiet => .error
  | .verbose 0 => .warn
  | .verbose 1 => .info
  | .verbose 2 => .debug
  | .verbose _ => .trace

end Telling

/-- What is wished for: a value for some of the options, and some of the switches. -/
structure Wishes where
  value : ValueOption → Option String
  isValue : ∀ o text, value o = some text → IsValue text
  isStyle : ∀ text, value .style = some text → style? text ≠ none
  dryRun : Bool
  json : Bool
  telling : Telling

def ValueOption.all : List ValueOption :=
  [.archives, .repository, .output, .template, .settings, .style]

namespace Wishes

variable (w : Wishes)

def switches : List Switch :=
  (if w.dryRun then [.dryRun] else []) ++ (if w.json then [.json] else []) ++ w.telling.switches

/-- Each option and each switch that is wished for, once; the one for more log output as often as
wished for. -/
def items : List Item :=
  (ValueOption.all.filterMap fun o => (w.value o).map (.option o)) ++ w.switches.map .switch

/-- What is wished for, with defaults for the rest. -/
def toArguments : Arguments :=
  let defaults : Arguments := {}
  let path? (o : ValueOption) := (w.value o).map Path.ofString
  { archives := (path? .archives).getD defaults.archives
    repository := path? .repository
    output := (path? .output).getD defaults.output
    template := path? .template
    settings := path? .settings
    style := ((w.value .style).bind style?).getD defaults.style
    dryRun := w.dryRun
    json := w.json
    verbosity :=
      match w.telling with
      | .quiet => 0
      | .verbose n => min n 255
    quiet :=
      match w.telling with
      | .quiet => true
      | .verbose _ => false }

theorem pairs_items : w.items.filterMap Item.pair? =
    ValueOption.all.filterMap fun o => (w.value o).map (o, ·) := by
  have hswitches : (w.switches.map Item.switch).filterMap Item.pair? = [] := by
    simp [List.filterMap_map, Function.comp_def, Item.pair?]
  rw [items, List.filterMap_append, hswitches, List.append_nil, List.filterMap_filterMap]
  refine List.filterMap_congr fun o _ => ?_
  cases w.value o <;> rfl

theorem switches_items : w.items.filterMap Item.switch? = w.switches := by
  have hoptions : (ValueOption.all.filterMap fun o => (w.value o).map (Item.option o)).filterMap
      Item.switch? = [] := by
    rw [List.filterMap_filterMap, List.filterMap_eq_nil_iff]
    intro o _
    cases w.value o <;> rfl
  rw [items, List.filterMap_append, hoptions, List.nil_append, List.filterMap_map]
  exact List.filterMap_some

theorem keys_pairs : ((w.items.filterMap Item.pair?).map (·.1)).Nodup := by
  have hall : ValueOption.all.Nodup := by decide
  have hkeys : (w.items.filterMap Item.pair?).map (·.1) =
      ValueOption.all.filter fun o => (w.value o).isSome := by
    rw [pairs_items, List.map_filterMap, ← List.filterMap_eq_filter]
    refine List.filterMap_congr fun o _ => ?_
    cases h : w.value o <;> simp [Option.guard, h]
  rw [hkeys]
  exact hall.filter _

theorem mem_pairs {o : ValueOption} {text : String} :
    (o, text) ∈ w.items.filterMap Item.pair? ↔ w.value o = some text := by
  have hall : o ∈ ValueOption.all := by cases o <;> decide
  rw [pairs_items, List.mem_filterMap]
  constructor
  · rintro ⟨o', -, h⟩
    obtain ⟨text', htext, heq⟩ := Option.map_eq_some_iff.1 h
    cases heq
    exact htext
  · intro h
    exact ⟨o, hall, by rw [h]; rfl⟩

theorem not_mem_switches : .help ∉ w.switches ∧ .version ∉ w.switches := by
  unfold switches
  cases w.dryRun <;> cases w.json <;> cases w.telling <;> simp [Telling.switches]

theorem fits_items : Fits w.items where
  options := w.keys_pairs
  values o text hin := by
    have hvalue : w.value o = some text := w.mem_pairs.1 (List.mem_filterMap.2 ⟨_, hin, rfl⟩)
    refine ⟨w.isValue o text hvalue, ?_⟩
    rintro rfl
    exact w.isStyle text hvalue
  switches := by
    rw [switches_items, switches]
    cases w.dryRun <;> cases w.json <;> cases w.telling <;> simp [Telling.switches]
  run s hin := by
    have hs : s ∈ w.switches := by
      rw [← switches_items]
      exact List.mem_filterMap.2 ⟨_, hin, rfl⟩
    obtain ⟨hhelp, hversion⟩ := w.not_mem_switches
    exact ⟨fun h => hhelp (h ▸ hs), fun h => hversion (h ▸ hs)⟩

theorem contains_switches :
    w.switches.contains .dryRun = w.dryRun ∧ w.switches.contains .json = w.json ∧
      w.switches.contains .quiet = w.toArguments.quiet ∧
      min (w.switches.count .verbose) 255 = w.toArguments.verbosity := by
  unfold switches toArguments
  cases w.dryRun <;> cases w.json <;> cases w.telling <;>
    simp [Telling.switches, List.count_replicate_self]

variable {w : Wishes} {is : List Item}

/-- In whatever order the items of wishes are given, the same arguments come of them. -/
theorem toArguments_gathered (hperm : is.Perm w.items) :
    (gathered is).toArguments = w.toArguments := by
  have hlookup (o : ValueOption) : (gathered is).values.lookup o = w.value o := by
    have hvalues : (gathered is).values.lookup o = (w.items.filterMap Item.pair?).lookup o :=
      lookup_perm (hperm.filterMap _) w.keys_pairs
    refine hvalues.trans (Option.ext fun text => ?_)
    rw [lookup_iff_mem w.keys_pairs, mem_pairs]
  have hswitches : (gathered is).switches.Perm w.switches := by
    rw [← switches_items]
    exact hperm.filterMap _
  have hcontains (s : Switch) : (gathered is).switches.contains s = w.switches.contains s := by
    rw [Bool.eq_iff_iff, List.contains_iff_mem, List.contains_iff_mem, hswitches.mem_iff]
  obtain ⟨hdry, hjson, hquiet, hverbose⟩ := w.contains_switches
  simp only [Given.toArguments, Given.path?, Given.count, hlookup, hcontains, hdry, hjson, hquiet,
    hswitches.count_eq, hverbose]
  rfl

theorem not_both (w : Wishes) : ¬((w.toArguments.quiet : Prop) ∧ 0 < w.toArguments.verbosity) := by
  unfold toArguments
  cases w.telling <;> simp

theorem logLevel_toArguments (w : Wishes) : w.toArguments.logLevel = w.telling.level := by
  unfold logLevel toArguments
  dsimp only
  cases w.telling with
  | quiet => rfl
  | verbose n =>
    match n with
    | 0 | 1 | 2 => rfl
    | n + 3 =>
      have hmin : ∃ k, min (n + 3) 255 = k + 3 := ⟨min n 252, by omega⟩
      obtain ⟨k, hk⟩ := hmin
      simp only [hk]
      rfl

end Wishes

theorem Fits.quiet {is : List Item} (h : Fits is) (hnot : .switch .quiet ∉ is) :
    Fits (.switch .quiet :: is) where
  options := h.options
  values o value hin := h.values o value (by simpa using hin)
  switches := by
    have hnone : Switch.quiet ∉ is.filterMap Item.switch? := by
      intro hin
      obtain ⟨i, hi, hs⟩ := List.mem_filterMap.1 hin
      cases i with
      | switch s =>
        cases hs
        exact hnot hi
      | option | opening | value | fault => cases hs
    have hcons : ((Item.switch .quiet :: is).filterMap Item.switch?).filter (· ≠ .verbose) =
        .quiet :: (is.filterMap Item.switch?).filter (· ≠ .verbose) := rfl
    rw [hcons, List.nodup_cons]
    exact ⟨fun hin => hnone (List.mem_filter.1 hin).1, h.switches⟩
  run s hin := by
    rcases List.mem_cons.1 hin with heq | hin
    · cases heq
      decide
    · exact h.run s hin

theorem read_of_spells {is : List Item} {arguments : List String} (h : Spells is arguments)
    (hfits : Fits is) :
    read arguments =
      if (gathered is).toArguments.quiet ∧ 0 < (gathered is).toArguments.verbosity then
        .error .conflict
      else .ok (gathered is).toArguments := by
  unfold read
  rw [takeAll_of_spells h hfits]
  rfl

/-- However wishes are spelled and in whatever order, they are read as what they are, with defaults
for what is not wished for, and the log is shown down to the level that goes with them. To ask for
more log output and for quiet is a conflict. -/
theorem read_any_spelling (w : Wishes) :
    (∀ is arguments, is.Perm w.items → Spells is arguments →
        read arguments = .ok w.toArguments) ∧
      w.toArguments.logLevel = w.telling.level ∧
      ∀ n, w.telling = .verbose (n + 1) → ∀ is arguments,
        is.Perm (.switch .quiet :: w.items) → Spells is arguments →
        read arguments = .error .conflict := by
  refine ⟨?_, w.logLevel_toArguments, ?_⟩
  · intro is arguments hperm hspells
    rw [read_of_spells hspells (w.fits_items.perm hperm), Wishes.toArguments_gathered hperm]
    exact if_neg w.not_both
  · intro n htelling is arguments hperm hspells
    obtain ⟨-, -, hquiet, hverbose⟩ := w.contains_switches
    simp only [Wishes.toArguments, htelling] at hquiet hverbose
    have hnot : .switch .quiet ∉ w.items := by
      intro hin
      have hs : Switch.quiet ∈ w.switches := by
        rw [← w.switches_items]
        exact List.mem_filterMap.2 ⟨_, hin, rfl⟩
      rw [← List.contains_iff_mem, hquiet] at hs
      cases hs
    have hswitches : (gathered is).switches.Perm (.quiet :: w.switches) := by
      rw [← w.switches_items]
      exact hperm.filterMap _
    rw [read_of_spells hspells ((w.fits_items.quiet hnot).perm hperm)]
    refine if_pos ⟨?_, ?_⟩
    · exact List.contains_iff_mem.2 (hswitches.mem_iff.2 List.mem_cons_self)
    · show 0 < min ((gathered is).switches.count .verbose) 255
      rw [hswitches.count_eq, List.count_cons_of_ne (by decide), hverbose]
      omega

/-- Two values and more log output, asked for three times, and for a document. -/
def mixed : Wishes where
  value
    | .repository => some "m2"
    | .style => some "managed"
    | _ => none
  isValue o text h := by
    cases o <;> cases h <;> exact ⟨_, _, rfl, by decide⟩
  isStyle text h := by
    cases h
    decide
  dryRun := false
  json := true
  telling := .verbose 3

theorem mixed_spelled :
    read ["-vvr", "m2", "--json", "--style=managed", "--verbose"] = .ok mixed.toArguments ∧
      read ["-vq", "-r=m2", "--json", "--style", "managed", "-vv"] = .error .conflict := by
  obtain ⟨hread, -, hconflict⟩ := read_any_spelling mixed
  have hvv : Lettered [.verbose, .verbose] ['v', 'v'] := .cons rfl (.cons rfl .nil)
  have hvq : Lettered [.verbose, .quiet] ['v', 'q'] := .cons rfl (.cons rfl .nil)
  have hspells : Spells [.switch .verbose, .switch .verbose, .option .repository "m2",
      .switch .json, .option .style "managed", .switch .verbose]
      ["-vvr", "m2", "--json", "--style=managed", "--verbose"] :=
    .cons (.shortApart (o := .repository) hvv rfl) <| .cons .named <| .cons .joined <|
      .cons .named .none
  have hspells' : Spells [.switch .verbose, .switch .quiet, .option .repository "m2",
      .switch .json, .option .style "managed", .switch .verbose, .switch .verbose]
      ["-vq", "-r=m2", "--json", "--style", "managed", "-vv"] :=
    .cons (.letters hvq (by simp)) <| .cons (.shortJoined (o := .repository) .nil rfl) <|
      .cons .named <| .cons .apart <| .cons (.letters hvv (by simp)) .none
  exact ⟨hread _ _ (by decide) hspells, hconflict 2 rfl _ _ (by decide) hspells'⟩

end BillOfMaterials.Arguments
