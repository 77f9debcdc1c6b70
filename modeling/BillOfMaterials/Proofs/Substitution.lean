import BillOfMaterials.Bom.Template
import BillOfMaterials.Proofs.Names
import Mathlib.Data.List.Infix

/-!
# Filling all gaps of a template at once

The markers of a template are put in one after the other, each on text that already holds what was
put in before. Nothing goes wrong with it: the result is that of cutting the template at all of its
markers and filling the gaps once. An occurrence of a marker that was not there before would have to
begin in a text that was put in, or run into one. The first is ruled out by the characters of names,
the second too, and it cannot run through one because a `<` or the end of the template follows it.
-/
namespace BillOfMaterials

namespace Bom

/-! ## Cutting a template -/

/-- What a marker stands for. -/
inductive Slot where
  | display
  | short
  | dependencies
deriving DecidableEq

def Slot.marker : Slot → List Char
  | .display => displayMarker.toList
  | .short => shortMarker.toList
  | .dependencies => dependenciesMarker.toList

/-- The parts of a template: characters that stay, and gaps to fill. -/
inductive Part where
  | kept (c : Char)
  | gap (slot : Slot)
deriving DecidableEq

def Part.fill (values : Slot → List Char) : Part → List Char
  | .kept c => [c]
  | .gap slot => values slot

def fillParts (values : Slot → List Char) (parts : List Part) : List Char :=
  parts.flatMap (Part.fill values)

/-- The slot whose marker a text begins with. -/
def slotAt? (text : List Char) : Option Slot :=
  [Slot.display, .short, .dependencies].find? (·.marker.isPrefixOf text)

/-- The parts of a text, from left to right. The count says how many characters of the last marker
are still to be passed over. -/
def cutFrom : Nat → List Char → List Part
  | _, [] => []
  | n + 1, _ :: rest => cutFrom n rest
  | 0, c :: rest =>
    match slotAt? (c :: rest) with
    | some slot => .gap slot :: cutFrom (slot.marker.length - 1) rest
    | none => .kept c :: cutFrom 0 rest

def Template.parts (t : Template) : List Part := cutFrom 0 t.text.toList

/-- Parts that a text is cut into at all markers: with the markers in the gaps they give the text,
and each marker in the text is a gap. -/
structure IsCut (text : List Char) (parts : List Part) : Prop where
  spelled : fillParts Slot.marker parts = text
  complete : ∀ before slot after, text = before ++ (slot.marker ++ after) →
    ∃ front back, parts = front ++ .gap slot :: back ∧ fillParts Slot.marker front = before

/-! ## Markers -/

namespace Slot

def opening : Slot → Char
  | .display => 'T'
  | .short => 't'
  | .dependencies => '<'

theorem marker_eq (slot : Slot) : slot.marker = slot.opening :: slot.marker.tail := by
  cases slot <;> rfl

theorem marker_ne_nil (slot : Slot) : slot.marker ≠ [] := by
  rw [marker_eq]
  exact List.cons_ne_nil _ _

/-- No marker holds the beginning of one. -/
theorem opening_not_mem_tail (slot other : Slot) : slot.opening ∉ other.marker.tail := by
  cases slot <;> cases other <;> decide

theorem opening_injective : Function.Injective opening := by
  intro slot other h
  cases slot <;> cases other <;> first | rfl | cases h

/-- Markers do not overlap. -/
theorem not_marker_prefix (slot other : Slot) {part rest : List Char} (hne : part ≠ [])
    (hpart : part <:+ other.marker.tail) : ¬ slot.marker <+: part ++ rest := by
  intro h
  cases part with
  | nil => exact hne rfl
  | cons c part =>
    rw [marker_eq] at h
    obtain ⟨rfl, -⟩ := List.cons_prefix_cons.1 h
    exact opening_not_mem_tail slot other (hpart.subset List.mem_cons_self)

end Slot

@[simp] theorem fillParts_cons (values : Slot → List Char) (part : Part) (parts : List Part) :
    fillParts values (part :: parts) = part.fill values ++ fillParts values parts :=
  List.flatMap_cons

@[simp] theorem fillParts_append (values : Slot → List Char) (front back : List Part) :
    fillParts values (front ++ back) = fillParts values front ++ fillParts values back :=
  List.flatMap_append

/-! ## Every text can be cut -/

theorem slotAt?_eq_some {text : List Char} {slot : Slot} (h : slotAt? text = some slot) :
    slot.marker <+: text :=
  List.isPrefixOf_iff_prefix.1
    (List.find?_some (p := fun slot : Slot => slot.marker.isPrefixOf text) h)

theorem slotAt?_eq_none {text : List Char} (h : slotAt? text = none) (slot : Slot) :
    ¬ slot.marker <+: text := by
  intro hp
  have hmem : slot ∈ [Slot.display, .short, .dependencies] := by cases slot <;> decide
  exact List.find?_eq_none.1 h slot hmem (List.isPrefixOf_iff_prefix.2 hp)

theorem cutFrom_passed (passed rest : List Char) :
    cutFrom passed.length (passed ++ rest) = cutFrom 0 rest := by
  induction passed with
  | nil => rfl
  | cons c passed ih => exact ih

theorem isCut_nil : IsCut [] [] := by
  refine ⟨rfl, ?_⟩
  intro before slot after h
  have hnil := (List.append_eq_nil_iff.1 (List.append_eq_nil_iff.1 h.symm).2).1
  exact absurd hnil slot.marker_ne_nil

theorem IsCut.kept {c : Char} {text : List Char} {parts : List Part} (h : IsCut text parts)
    (hc : ∀ slot : Slot, ¬ slot.marker <+: c :: text) : IsCut (c :: text) (.kept c :: parts) := by
  refine ⟨congrArg (c :: ·) h.spelled, ?_⟩
  intro before slot after heq
  cases before with
  | nil => exact absurd ⟨after, heq.symm⟩ (hc slot)
  | cons d before =>
    obtain ⟨rfl, htext⟩ := List.cons.inj heq
    obtain ⟨front, back, hparts, hfront⟩ := h.complete before slot after htext
    exact ⟨.kept c :: front, back, congrArg _ hparts, congrArg (c :: ·) hfront⟩

theorem IsCut.gap (slot : Slot) {text : List Char} {parts : List Part} (h : IsCut text parts) :
    IsCut (slot.marker ++ text) (.gap slot :: parts) := by
  refine ⟨congrArg (slot.marker ++ ·) h.spelled, ?_⟩
  intro before other after heq
  cases before with
  | nil =>
    rw [slot.marker_eq, other.marker_eq] at heq
    obtain rfl : slot = other := Slot.opening_injective (List.cons.inj heq).1
    exact ⟨[], parts, rfl, rfl⟩
  | cons d before =>
    have hbehind : ∃ more, d :: before = slot.marker ++ more ∧
        text = more ++ (other.marker ++ after) := by
      rcases List.append_eq_append_iff.1 heq with hbehind | ⟨part, hmarker, hafter⟩
      · exact hbehind
      cases part with
      | nil => exact ⟨[], by rw [hmarker, List.append_nil, List.append_nil], hafter.symm⟩
      | cons e part =>
        have hinside : e :: part <:+ slot.marker.tail := by
          rw [hmarker]
          exact List.suffix_append before (e :: part)
        exact absurd ⟨after, hafter⟩
          (other.not_marker_prefix slot (List.cons_ne_nil e part) hinside)
    obtain ⟨more, hbefore, htext⟩ := hbehind
    obtain ⟨front, back, hparts, hfront⟩ := h.complete more other after htext
    refine ⟨.gap slot :: front, back, congrArg _ hparts, ?_⟩
    rw [fillParts_cons, hfront, hbefore]
    rfl

theorem isCut_cutFrom (text : List Char) : IsCut text (cutFrom 0 text) := by
  induction hn : text.length using Nat.strong_induction_on generalizing text with
  | _ n ih =>
    subst hn
    cases text with
    | nil => exact isCut_nil
    | cons c rest =>
      unfold cutFrom
      cases hslot : slotAt? (c :: rest) with
      | some slot =>
        obtain ⟨after, hafter⟩ := slotAt?_eq_some hslot
        have hrest : rest = slot.marker.tail ++ after := by
          rw [slot.marker_eq] at hafter
          exact (List.cons.inj hafter).2.symm
        have hlength : slot.marker.length - 1 = slot.marker.tail.length := List.length_tail.symm
        have hcut : cutFrom (slot.marker.length - 1) rest = cutFrom 0 after := by
          rw [hlength, hrest, cutFrom_passed]
        have hshort : after.length < (c :: rest).length := by
          rw [hrest, List.length_cons, List.length_append]
          omega
        dsimp only
        rw [hcut, ← hafter]
        exact (ih _ hshort after rfl).gap slot
      | none =>
        exact (ih _ (Nat.lt_succ_self _) rest rfl).kept (slotAt?_eq_none hslot)

theorem Template.isCut_parts (t : Template) : IsCut t.text.toList t.parts :=
  isCut_cutFrom t.text.toList

/-! ## Markers behind what was put in -/

/-- After a name that is put in, a tag opens or the template ends. -/
def Template.IsDelimited (t : Template) : Prop :=
  ∀ before (slot : Slot) after, slot ≠ .dependencies →
    t.text.toList = before ++ (slot.marker ++ after) → ∀ c ∈ after.head?, c = '<'

/-- A text that neither holds the marker of a slot nor begins with a later part of it. -/
structure IsInert (slot : Slot) (value : List Char) : Prop where
  whole : ¬ slot.marker <:+: value
  part : ∀ part, part ≠ [] → part <:+ slot.marker.tail → ¬ part <+: value

/-- While the gaps of one slot are filled, the others hold their markers or names that are
inert. -/
structure IsStage (slot : Slot) (values : Slot → List Char) : Prop where
  pending : values slot = slot.marker
  dependencies : values .dependencies = dependenciesMarker.toList
  others : ∀ other, values other = other.marker ∨
    other ≠ .dependencies ∧ IsInert slot (values other)

section Stage

variable {slot : Slot} {values : Slot → List Char} (hstage : IsStage slot values)

include hstage

theorem IsStage.head?_fillParts {parts : List Part}
    (h : ∀ c ∈ (fillParts Slot.marker parts).head?, c = '<') :
    ∀ c ∈ (fillParts values parts).head?, c = '<' := by
  cases parts with
  | nil => exact h
  | cons part parts =>
    cases part with
    | kept c => exact h
    | gap other =>
      rw [fillParts_cons, Part.fill, other.marker_eq] at h
      have hopening : other.opening = Slot.dependencies.opening := h _ rfl
      obtain rfl := Slot.opening_injective hopening
      rw [fillParts_cons, Part.fill, hstage.dependencies]
      exact h

/-- A later part of the marker that stands at the beginning now stood there before. -/
theorem IsStage.prefix_of_fillParts {parts : List Part}
    (hdelimited : ∀ other back, .gap other :: back <:+ parts → other ≠ .dependencies →
      ∀ c ∈ (fillParts Slot.marker back).head?, c = '<')
    {word : List Char} (hword : word <:+ slot.marker.tail)
    (h : word <+: fillParts values parts) : word <+: fillParts Slot.marker parts := by
  induction parts generalizing word with
  | nil => exact h
  | cons part parts ih =>
    cases word with
    | nil => exact List.nil_prefix
    | cons d word =>
      cases part with
      | kept c =>
        obtain ⟨rfl, hrest⟩ := List.cons_prefix_cons.1 h
        have hdelimited' := fun other back (hback : .gap other :: back <:+ parts) =>
          hdelimited other back (hback.trans (List.suffix_cons _ parts))
        have hwas := ih hdelimited' ((List.suffix_cons d word).trans hword) hrest
        exact List.cons_prefix_cons.2 ⟨rfl, hwas⟩
      | gap other =>
        exfalso
        rw [fillParts_cons, Part.fill] at h
        rcases hstage.others other with hpending | ⟨hname, hinert⟩
        · rw [hpending, other.marker_eq] at h
          obtain ⟨rfl, -⟩ := List.cons_prefix_cons.1 h
          exact other.opening_not_mem_tail slot (hword.subset List.mem_cons_self)
        · have hstop := hstage.head?_fillParts
            (hdelimited other parts (List.suffix_refl _) hname)
          have hfree : '<' ∉ d :: word := fun hmem =>
            Slot.opening_not_mem_tail .dependencies slot (hword.subset hmem)
          exact hinert.part _ (List.cons_ne_nil d word) hword
            (Text.prefix_of_stop hfree hstop h)

/-- Filling the gaps of one slot. -/
theorem IsStage.replaces_fillParts {parts : List Part}
    (hkept : ∀ c back, .kept c :: back <:+ parts →
      ¬ slot.marker <+: c :: fillParts Slot.marker back)
    (hdelimited : ∀ other back, .gap other :: back <:+ parts → other ≠ .dependencies →
      ∀ c ∈ (fillParts Slot.marker back).head?, c = '<') (new : List Char) :
    Text.Replaces slot.marker new (fillParts values parts)
      (fillParts (Function.update values slot new) parts) := by
  induction parts with
  | nil => exact .nil
  | cons part parts ih =>
    have hsuffix {back} (h : back <:+ parts) : back <:+ part :: parts :=
      h.trans (List.suffix_cons part parts)
    have hrest := ih (fun c back h => hkept c back (hsuffix h))
      (fun other back h => hdelimited other back (hsuffix h))
    rw [fillParts_cons, fillParts_cons]
    cases part with
    | kept c =>
      refine .kept (fun hmarker => ?_) hrest
      rw [slot.marker_eq] at hmarker
      obtain ⟨hc, htail⟩ := List.cons_prefix_cons.1 hmarker
      have hwas := hstage.prefix_of_fillParts
        (fun other back h => hdelimited other back (hsuffix h)) (List.suffix_refl _) htail
      apply hkept c parts (List.suffix_refl _)
      rw [slot.marker_eq]
      exact List.cons_prefix_cons.2 ⟨hc, hwas⟩
    | gap other =>
      by_cases hother : other = slot
      · subst hother
        rw [Part.fill, Part.fill, Function.update_self, hstage.pending]
        exact .hit hrest
      rw [Part.fill, Part.fill, Function.update_of_ne hother]
      apply hrest.append_front
      intro word hne hword hmarker
      rcases hstage.others other with hpending | ⟨hname, hinert⟩
      · rw [hpending] at hword
        rcases List.suffix_cons_iff.1 (other.marker_eq ▸ hword) with rfl | hinside
        · rw [slot.marker_eq, List.cons_append] at hmarker
          exact hother (Slot.opening_injective (List.cons_prefix_cons.1 hmarker).1).symm
        · exact slot.not_marker_prefix other hne hinside hmarker
      · have hstop := hstage.head?_fillParts (hdelimited other parts (List.suffix_refl _) hname)
        cases word with
        | nil => exact hne rfl
        | cons c word =>
          rw [slot.marker_eq] at hmarker
          obtain ⟨hc, htail⟩ := List.cons_prefix_cons.1 hmarker
          have hfree := Slot.opening_not_mem_tail .dependencies slot
          have hin : slot.marker <+: c :: word := by
            rw [slot.marker_eq]
            exact List.cons_prefix_cons.2 ⟨hc, Text.prefix_of_stop hfree hstop htail⟩
          exact hinert.whole (hin.isInfix.trans hword.isInfix)

end Stage

/-! ## Names are inert -/

theorem hyphen_not_mem_displayName (short : List Char) :
    '-' ∉ DistributionName.displayName short := by
  intro h
  rcases DistributionName.mem_displayName h with ⟨-, hne⟩ | hblank | hlarge
  · exact hne rfl
  · exact absurd hblank (by decide)
  · exact absurd hlarge (by decide)

theorem isInert_displayName (short : List Char) :
    IsInert .short (DistributionName.displayName short) := by
  have hhyphen := hyphen_not_mem_displayName short
  have htail : ∀ c ∈ Slot.short.marker.tail, c = '-' ∨ 0x61 ≤ c.toNat ∧ c.toNat < 0x7B := by
    simp [Slot.marker, shortMarker]
  constructor
  · exact fun h => hhyphen (h.subset (by decide))
  · intro part hne hpart h
    cases part with
    | nil => exact hne rfl
    | cons c part =>
      have hhead : c ∈ (DistributionName.displayName short).head? := by
        obtain ⟨rest, hrest⟩ := h
        rw [← hrest]
        rfl
      rcases htail c (hpart.subset List.mem_cons_self) with rfl | hsmall
      · exact hhyphen (List.mem_of_mem_head? hhead)
      · have hnot := DistributionName.head?_displayName hhead
        omega

theorem isInert_dependencies {value : List Char} (h : '>' ∉ value) :
    IsInert .dependencies value := by
  constructor
  · exact fun hin => h (hin.subset (by decide))
  · intro part hne hpart hbegins
    have hlast : part.getLast? = some '>' := by
      obtain ⟨before, hbefore⟩ := hpart
      have hmarker : (before ++ part).getLast? = some '>' := by
        rw [hbefore]
        rfl
      rwa [List.getLast?_append_of_ne_nil _ hne] at hmarker
    exact h (hbegins.subset (List.mem_of_getLast? hlast))

/-! ## Filling a template -/

theorem eq_nil_of_fillParts {parts : List Part} (h : fillParts Slot.marker parts = []) :
    parts = [] := by
  cases parts with
  | nil => rfl
  | cons part parts =>
    have hnil := (List.append_eq_nil_iff.1 h).1
    cases part with
    | kept c => cases hnil
    | gap slot => exact absurd hnil slot.marker_ne_nil

/-- Parts of one text that begin at the same place of it begin at the same place of the parts. -/
theorem front_unique {front back front' back' : List Part}
    (h : front ++ back = front' ++ back')
    (hfill : fillParts Slot.marker front = fillParts Slot.marker front') : back = back' := by
  rcases List.append_eq_append_iff.1 h with ⟨more, rfl, hback⟩ | ⟨more, rfl, hback⟩
  · rw [fillParts_append] at hfill
    have hmore := eq_nil_of_fillParts (List.append_right_eq_self.1 hfill.symm)
    rw [hback, hmore, List.nil_append]
  · rw [fillParts_append] at hfill
    have hmore := eq_nil_of_fillParts (List.append_right_eq_self.1 hfill)
    rw [hback, hmore, List.nil_append]

theorem IsCut.not_marker_prefix {text : List Char} {parts : List Part} (h : IsCut text parts)
    (slot : Slot) {c : Char} {back : List Part} (hback : .kept c :: back <:+ parts) :
    ¬ slot.marker <+: c :: fillParts Slot.marker back := by
  rintro ⟨after, hafter⟩
  obtain ⟨front, rfl⟩ := hback
  have htext : text = fillParts Slot.marker front ++ (slot.marker ++ after) := by
    rw [hafter, ← h.spelled, fillParts_append, fillParts_cons]
    rfl
  obtain ⟨front', back', hparts, hfront⟩ := h.complete _ slot after htext
  cases front_unique hparts hfront.symm

theorem Template.IsDelimited.head? {t : Template} (h : t.IsDelimited) {slot : Slot}
    {back : List Part} (hback : .gap slot :: back <:+ t.parts) (hname : slot ≠ .dependencies) :
    ∀ c ∈ (fillParts Slot.marker back).head?, c = '<' := by
  obtain ⟨front, hfront⟩ := hback
  apply h (fillParts Slot.marker front) slot _ hname
  rw [← t.isCut_parts.spelled, ← hfront, fillParts_append, fillParts_cons]
  rfl

theorem Template.IsDelimited.replaceAll_fillParts {t : Template} (h : t.IsDelimited) {slot : Slot}
    {values : Slot → List Char} (hstage : IsStage slot values) (new : List Char) :
    Text.replaceAll slot.marker new (fillParts values t.parts) =
      fillParts (Function.update values slot new) t.parts := by
  rw [← Text.replaces_iff slot.marker_ne_nil]
  exact hstage.replaces_fillParts
    (fun c back hback => t.isCut_parts.not_marker_prefix slot hback)
    (fun other back hback hname => h.head? hback hname) new

def slotValue (style : Style) (d : Distribution) : Slot → List Char
  | .display => d.name.display.toList
  | .short => d.name.short.toList
  | .dependencies => (dependencies style d.coordinates).toList

/-- A manifest is the template, cut at all of its markers, with the gaps filled once. -/
theorem Template.fill_eq_fillParts {t : Template} {d : Distribution} {archive namePrefix : String}
    (hname : d.name = .ofArchive archive namePrefix) (harchive : '>' ∉ archive.toList)
    (hdelimited : t.IsDelimited) (style : Style) :
    IsCut t.text.toList t.parts ∧
      (t.fill style d).toList = fillParts (slotValue style d) t.parts := by
  refine ⟨t.isCut_parts, ?_⟩
  have hdisplay : d.name.display.toList = DistributionName.displayName d.name.short.toList := by
    rw [hname, DistributionName.ofArchive, String.toList_ofList, String.toList_ofList]
  have hcloseShort : '>' ∉ d.name.short.toList := by
    rw [hname, DistributionName.ofArchive, String.toList_ofList]
    exact fun h => harchive ((DistributionName.shortName_sublist _ _).subset h)
  have hcloseDisplay : '>' ∉ d.name.display.toList := by
    rw [hdisplay]
    intro h
    rcases DistributionName.mem_displayName h with ⟨hmem, -⟩ | hblank | hlarge
    · exact hcloseShort hmem
    · exact absurd hblank (by decide)
    · exact absurd hlarge (by decide)
  let named := Function.update Slot.marker .display d.name.display.toList
  let short := Function.update named .short d.name.short.toList
  have hfirst : IsStage .display Slot.marker := ⟨rfl, rfl, fun _ => .inl rfl⟩
  have hsecond : IsStage .short named := by
    refine ⟨rfl, rfl, ?_⟩
    intro other
    cases other with
    | display =>
      refine .inr ⟨by decide, ?_⟩
      show IsInert .short d.name.display.toList
      rw [hdisplay]
      exact isInert_displayName _
    | short => exact .inl rfl
    | dependencies => exact .inl rfl
  have hthird : IsStage .dependencies short := by
    refine ⟨rfl, rfl, ?_⟩
    intro other
    cases other with
    | display => exact .inr ⟨by decide, isInert_dependencies hcloseDisplay⟩
    | short => exact .inr ⟨by decide, isInert_dependencies hcloseShort⟩
    | dependencies => exact .inl rfl
  calc (t.fill style d).toList
      = Text.replaceAll Slot.dependencies.marker (dependencies style d.coordinates).toList
          (Text.replaceAll Slot.short.marker d.name.short.toList
            (Text.replaceAll Slot.display.marker d.name.display.toList
              (fillParts Slot.marker t.parts))) := by
        rw [t.isCut_parts.spelled]
        simp only [Template.fill, Text.replace, String.toList_ofList, Slot.marker]
    _ = Text.replaceAll Slot.dependencies.marker (dependencies style d.coordinates).toList
          (Text.replaceAll Slot.short.marker d.name.short.toList (fillParts named t.parts)) := by
        rw [hdelimited.replaceAll_fillParts hfirst]
    _ = Text.replaceAll Slot.dependencies.marker (dependencies style d.coordinates).toList
          (fillParts short t.parts) := by
        rw [hdelimited.replaceAll_fillParts hsecond]
    _ = fillParts (Function.update short .dependencies
          (dependencies style d.coordinates).toList) t.parts :=
        hdelimited.replaceAll_fillParts hthird _
    _ = fillParts (slotValue style d) t.parts := by
        congr 1
        funext slot
        cases slot <;> rfl

/-! ## The template of the library -/

theorem Template.isDelimited_of_tails {text : List Char}
    (h : ∀ slot ∈ [Slot.display, .short], ∀ rest ∈ text.tails,
      slot.marker.isPrefixOf rest → (rest.drop slot.marker.length).head?.all (· = '<')) :
    IsDelimited ⟨String.ofList text⟩ := by
  intro before slot after hname htext
  have hslot : slot ∈ [Slot.display, .short] := by
    cases slot with
    | display => exact List.mem_cons_self
    | short => exact List.mem_cons_of_mem _ List.mem_cons_self
    | dependencies => exact absurd rfl hname
  have hrest : slot.marker ++ after ∈ text.tails := by
    rw [String.toList_ofList] at htext
    exact (List.mem_tails _ _).2 (htext ▸ List.suffix_append before _)
  have hbegins := List.isPrefixOf_iff_prefix.2 (List.prefix_append slot.marker after)
  have hafter := h slot hslot _ hrest hbegins
  rw [List.drop_left] at hafter
  exact fun c hc => of_decide_eq_true ((Option.all_eq_true _ _).1 hafter c hc)

theorem Template.isDelimited_builtin : Template.builtin.IsDelimited := by
  apply isDelimited_of_tails
  decide +kernel

/-- A distribution with a module whose names are markers themselves. -/
def markedDistribution : Distribution where
  archive := "apache-tomee-microprofile-8.0.7.zip"
  name := ⟨"tomee-microprofile", "TomEE MicroProfile"⟩
  coordinates := [⟨shortMarker, dependenciesMarker, .fixed "1.0"⟩]
  unknown := []

theorem fill_builtin_marked :
    (Template.builtin.fill .managed markedDistribution).toList =
      fillParts (slotValue .managed markedDistribution) Template.builtin.parts := by
  have hname : markedDistribution.name =
      .ofArchive "apache-tomee-microprofile-8.0.7.zip" "apache-" := by decide +kernel
  exact (Template.fill_eq_fillParts hname (by decide) Template.isDelimited_builtin .managed).2

end Bom
end BillOfMaterials
