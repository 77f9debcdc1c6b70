import BillOfMaterials.Proofs.Keys
import BillOfMaterials.Proofs.Outcomes
import BillOfMaterials.Proofs.Sorting
import BillOfMaterials.Settings.Load
import Mathlib.Data.List.Forall2
import Mathlib.Data.List.Nodup

/-!
# Settings field by field

A document is taken entry by entry, and an entry sets the field that its key names and no other. So
what a key means is independent of the other keys: a field that the document names has its value, all
others have their defaults, and the order of the entries does not count. Nor does it count for the
fault that is told, since entries are put in the order of their keys before they are taken.
-/
namespace BillOfMaterials

open Toml (Value)

/-! ## Taking entries -/

section Taking

variable {σ α : Type} {step : σ → String × Value → Except SettingsFault σ} {s s' : σ}
  {entries : List (String × Value)} {key : String}

/-- The entry of a key sets a field to what its value means, and other entries leave it alone. -/
structure Governs (step : σ → String × Value → Except SettingsFault σ) (key : String) (get : σ → α)
    (means : Value → α → Prop) : Prop where
  given : ∀ {s s' v}, step s (key, v) = .ok s' → means v (get s')
  kept : ∀ {s s' k v}, step s (k, v) = .ok s' → k ≠ key → get s' = get s

/-- The field is what the value of the key means, and has the default where the key has no value. -/
structure Overridden (entries : List (String × Value)) (key : String) (means : Value → α → Prop)
    (default actual : α) : Prop where
  given : ∀ v, (key, v) ∈ entries → means v actual
  absent : (∀ v, (key, v) ∉ entries) → actual = default

theorem Governs.overridden {get : σ → α} {means : Value → α → Prop} (h : Governs step key get means)
    (hdistinct : (entries.map Prod.fst).Nodup) (htaken : entries.foldlM step s = .ok s') :
    Overridden entries key means (get s) (get s') := by
  induction entries generalizing s with
  | nil =>
    cases htaken
    exact ⟨fun _ hv => (List.not_mem_nil hv).elim, fun _ => rfl⟩
  | cons entry rest ih =>
    obtain ⟨k, v⟩ := entry
    rw [List.foldlM_cons] at htaken
    obtain ⟨next, hstep, htaken⟩ := bind_eq_ok_iff.1 htaken
    obtain ⟨hnew, hdistinct⟩ := List.nodup_cons.1 hdistinct
    have hrest := ih hdistinct htaken
    by_cases hkey : k = key
    · subst hkey
      have hnone : ∀ w, (k, w) ∉ rest := fun w hw => hnew (List.mem_map.2 ⟨_, hw, rfl⟩)
      have hsame := hrest.absent hnone
      refine ⟨fun w hw => ?_, fun hno => (hno v List.mem_cons_self).elim⟩
      rcases List.mem_cons.1 hw with hthis | hw
      · cases hthis
        exact hsame ▸ h.given hstep
      · exact (hnone w hw).elim
    · have hkept := h.kept hstep hkey
      refine ⟨fun w hw => ?_, fun hno => ?_⟩
      · rcases List.mem_cons.1 hw with hthis | hw
        · cases hthis
          exact (hkey rfl).elim
        · exact hrest.given w hw
      · rw [hrest.absent fun w hw => hno w (List.mem_cons_of_mem _ hw), hkept]

theorem Overridden.of_perm {means : Value → α → Prop} {default actual : α}
    {ordered : List (String × Value)} (hperm : ordered.Perm entries)
    (h : Overridden ordered key means default actual) :
    Overridden entries key means default actual :=
  ⟨fun v hv => h.given v (hperm.mem_iff.2 hv),
    fun hno => h.absent fun v hv => hno v (hperm.mem_iff.1 hv)⟩

end Taking

namespace Settings

theorem inOrder_perm (entries : List (String × Value)) : (inOrder entries).Perm entries :=
  List.mergeSort_perm _ _

theorem inOrder_distinct {entries : List (String × Value)}
    (h : (entries.map Prod.fst).Nodup) : ((inOrder entries).map Prod.fst).Nodup :=
  ((inOrder_perm entries).map Prod.fst).nodup_iff.2 h

/-! ## Texts and lists of texts -/

theorem textOf_eq_ok_iff {v : Value} {text : String} : textOf v = .ok text ↔ v = .text text := by
  cases v <;> simp [textOf]

theorem mapM_textOf_eq_ok_iff {items : List Value} {texts : List String} :
    items.mapM textOf = .ok texts ↔ items = texts.map .text := by
  induction items generalizing texts with
  | nil => cases texts <;> simp [pure, Except.pure]
  | cons v rest ih =>
    rw [List.mapM_cons]
    constructor
    · intro h
      obtain ⟨text, hv, h⟩ := bind_eq_ok_iff.1 h
      obtain ⟨others, hrest, h⟩ := bind_eq_ok_iff.1 h
      cases h
      rw [textOf_eq_ok_iff.1 hv, ih.1 hrest, List.map_cons]
    · intro h
      cases texts with
      | nil => cases h
      | cons text others =>
        obtain ⟨rfl, hrest⟩ := List.cons_eq_cons.1 h
        rw [ih.2 hrest]
        rfl

theorem textsOf_eq_ok_iff {v : Value} {texts : List String} :
    textsOf v = .ok texts ↔ v = .array (texts.map .text) := by
  cases v <;> simp [textsOf, mapM_textOf_eq_ok_iff]

end Settings

/-! ## Fields -/

inductive ExclusionList where
  | names
  | prefixes
deriving DecidableEq

namespace ExclusionList

def key : ExclusionList → String
  | names => "names"
  | prefixes => "prefixes"

def get : ExclusionList → Exclusions → List String
  | names, e => e.names
  | prefixes, e => e.prefixes

def put : ExclusionList → Exclusions → List String → Exclusions
  | names, e, texts => { e with names := texts }
  | prefixes, e, texts => { e with prefixes := texts }

theorem key_injective (l : ExclusionList) {m : ExclusionList} (h : l.key = m.key) : l = m := by
  cases l <;> cases m <;> first | rfl | exact absurd h (by decide)

theorem get_put_self (l : ExclusionList) (e : Exclusions) (texts : List String) :
    l.get (l.put e texts) = texts := by
  cases l <;> rfl

theorem get_put_other {l m : ExclusionList} (h : l ≠ m) (e : Exclusions) (texts : List String) :
    l.get (m.put e texts) = l.get e := by
  cases l <;> cases m <;> first | rfl | exact (h rfl).elim

end ExclusionList

inductive TextSetting where
  | archivePrefix
  | archiveExtension
  | namePrefix
  | binaryExtension
  | releaseLine
  | ecjVersion
deriving DecidableEq

namespace TextSetting

def key : TextSetting → String
  | archivePrefix => "archive_prefix"
  | archiveExtension => "archive_extension"
  | namePrefix => "name_prefix"
  | binaryExtension => "binary_extension"
  | releaseLine => "release_line"
  | ecjVersion => "ecj_version"

def get : TextSetting → Settings → String
  | archivePrefix, s => s.archivePrefix
  | archiveExtension, s => s.archiveExtension
  | namePrefix, s => s.namePrefix
  | binaryExtension, s => s.binaryExtension
  | releaseLine, s => s.releaseLine
  | ecjVersion, s => s.ecjVersion

def put : TextSetting → Settings → String → Settings
  | archivePrefix, s, text => { s with archivePrefix := text }
  | archiveExtension, s, text => { s with archiveExtension := text }
  | namePrefix, s, text => { s with namePrefix := text }
  | binaryExtension, s, text => { s with binaryExtension := text }
  | releaseLine, s, text => { s with releaseLine := text }
  | ecjVersion, s, text => { s with ecjVersion := text }

theorem key_injective (f : TextSetting) {g : TextSetting} (h : f.key = g.key) : f = g := by
  cases f <;> cases g <;> first | rfl | exact absurd h (by decide)

theorem get_put_self (f : TextSetting) (s : Settings) (text : String) :
    f.get (f.put s text) = text := by
  cases f <;> rfl

theorem get_put_other {f g : TextSetting} (h : f ≠ g) (s : Settings) (text : String) :
    f.get (g.put s text) = f.get s := by
  cases f <;> cases g <;> first | rfl | exact (h rfl).elim

theorem exclusions_put (f : TextSetting) (s : Settings) (text : String) :
    (f.put s text).exclusions = s.exclusions := by
  cases f <;> rfl

theorem get_exclusions (f : TextSetting) (s : Settings) (e : Exclusions) :
    f.get { s with exclusions := e } = f.get s := by
  cases f <;> rfl

theorem key_ne_exclusions (f : TextSetting) : f.key ≠ "exclusions" := by
  cases f <;> decide

end TextSetting

/-! ## What an entry does -/

namespace Settings

theorem mem_exclusionKeys_iff {k : String} :
    k ∈ exclusionKeys ↔ ∃ l : ExclusionList, k = l.key := by
  constructor
  · intro h
    simp only [exclusionKeys, List.mem_cons, List.not_mem_nil, or_false] at h
    rcases h with rfl | rfl
    · exact ⟨.names, rfl⟩
    · exact ⟨.prefixes, rfl⟩
  · rintro ⟨l, rfl⟩
    cases l <;> decide

theorem mem_keys_iff {k : String} :
    k ∈ keys ↔ (∃ f : TextSetting, k = f.key) ∨ k = "exclusions" := by
  constructor
  · intro h
    simp only [keys, List.mem_cons, List.not_mem_nil, or_false] at h
    rcases h with rfl | rfl | rfl | rfl | rfl | rfl | rfl
    · exact .inl ⟨.archivePrefix, rfl⟩
    · exact .inl ⟨.archiveExtension, rfl⟩
    · exact .inl ⟨.namePrefix, rfl⟩
    · exact .inl ⟨.binaryExtension, rfl⟩
    · exact .inl ⟨.releaseLine, rfl⟩
    · exact .inl ⟨.ecjVersion, rfl⟩
    · exact .inr rfl
  · rintro (⟨f, rfl⟩ | rfl)
    · cases f <;> decide
    · decide

theorem setExclusion_key (e : Exclusions) (l : ExclusionList) (v : Value) :
    setExclusion e (l.key, v) = (textsOf v).map (l.put e) := by
  cases l <;> rfl

theorem setExclusion_unknown (e : Exclusions) {k : String} (h : k ∉ exclusionKeys) (v : Value) :
    setExclusion e (k, v) = .error (.unknownField k exclusionKeys) := by
  unfold setExclusion
  split <;> first | rfl | simp_all [exclusionKeys]

theorem set_text (s : Settings) (f : TextSetting) (v : Value) :
    set s (f.key, v) = (textOf v).map (f.put s) := by
  cases f <;> rfl

theorem set_exclusions (s : Settings) (v : Value) :
    set s ("exclusions", v) = (exclusionsOf v).map fun e => { s with exclusions := e } := rfl

theorem set_unknown (s : Settings) {k : String} (h : k ∉ keys) (v : Value) :
    set s (k, v) = .error (.unknownField k keys) := by
  unfold set
  split <;> first | rfl | simp_all [keys]

theorem setExclusion_eq_ok_iff {e e' : Exclusions} {k : String} {v : Value} :
    setExclusion e (k, v) = .ok e' ↔
      ∃ (l : ExclusionList) (texts : List String),
        k = l.key ∧ v = .array (texts.map .text) ∧ e' = l.put e texts := by
  constructor
  · intro h
    by_cases hk : k ∈ exclusionKeys
    · obtain ⟨l, rfl⟩ := mem_exclusionKeys_iff.1 hk
      rw [setExclusion_key] at h
      obtain ⟨texts, htexts, rfl⟩ := map_eq_ok_iff.1 h
      exact ⟨l, texts, rfl, textsOf_eq_ok_iff.1 htexts, rfl⟩
    · rw [setExclusion_unknown e hk] at h
      cases h
  · rintro ⟨l, texts, rfl, hv, rfl⟩
    rw [setExclusion_key, textsOf_eq_ok_iff.2 hv]
    rfl

theorem set_eq_ok_iff {s s' : Settings} {k : String} {v : Value} :
    set s (k, v) = .ok s' ↔
      (∃ (f : TextSetting) (text : String), k = f.key ∧ v = .text text ∧ s' = f.put s text) ∨
        k = "exclusions" ∧ ∃ e, exclusionsOf v = .ok e ∧ s' = { s with exclusions := e } := by
  constructor
  · intro h
    by_cases hk : k ∈ keys
    · rcases mem_keys_iff.1 hk with ⟨f, rfl⟩ | rfl
      · rw [set_text] at h
        obtain ⟨text, htext, rfl⟩ := map_eq_ok_iff.1 h
        exact .inl ⟨f, text, rfl, textOf_eq_ok_iff.1 htext, rfl⟩
      · rw [set_exclusions] at h
        exact .inr ⟨rfl, map_eq_ok_iff.1 h⟩
    · rw [set_unknown s hk] at h
      cases h
  · rintro (⟨f, text, rfl, hv, rfl⟩ | ⟨rfl, e, he, rfl⟩)
    · rw [set_text, textOf_eq_ok_iff.2 hv]
      rfl
    · rw [set_exclusions, he]
      rfl

theorem governs_list (l : ExclusionList) :
    Governs setExclusion l.key l.get fun v texts => v = .array (texts.map .text) where
  given h := by
    obtain ⟨m, texts, hkey, hv, rfl⟩ := setExclusion_eq_ok_iff.1 h
    rw [l.key_injective hkey, m.get_put_self]
    exact hv
  kept h hk := by
    obtain ⟨m, texts, rfl, -, rfl⟩ := setExclusion_eq_ok_iff.1 h
    exact ExclusionList.get_put_other (fun hl => hk (congrArg ExclusionList.key hl.symm)) _ _

theorem governs_text (f : TextSetting) :
    Governs set f.key f.get fun v text => v = .text text where
  given h := by
    obtain ⟨g, text, hkey, hv, rfl⟩ | ⟨hkey, -⟩ := set_eq_ok_iff.1 h
    · rw [f.key_injective hkey, g.get_put_self]
      exact hv
    · exact (f.key_ne_exclusions hkey).elim
  kept h hk := by
    obtain ⟨g, text, rfl, -, rfl⟩ | ⟨-, e, -, rfl⟩ := set_eq_ok_iff.1 h
    · exact TextSetting.get_put_other (fun hf => hk (congrArg TextSetting.key hf.symm)) _ _
    · exact f.get_exclusions _ e

theorem governs_exclusions :
    Governs set "exclusions" exclusions fun v e => exclusionsOf v = .ok e where
  given h := by
    obtain ⟨f, _, hkey, -⟩ | ⟨-, e, he, rfl⟩ := set_eq_ok_iff.1 h
    · exact (f.key_ne_exclusions hkey.symm).elim
    · exact he
  kept h hk := by
    obtain ⟨f, text, -, -, rfl⟩ | ⟨hkey, -⟩ := set_eq_ok_iff.1 h
    · exact f.exclusions_put _ text
    · exact (hk hkey).elim

/-! ## Which documents are settings, and which settings -/

/-- The value is a table of the lists of the exclusions and of nothing else, each a list of texts. -/
def AdmissibleExclusions (v : Value) : Prop :=
  ∃ entries, v = .table entries ∧
    ∀ entry ∈ entries, entry.1 ∈ exclusionKeys ∧
      ∃ texts : List String, entry.2 = .array (texts.map .text)

/-- The entry is of a setting, and its value is of the kind of the setting. -/
structure AdmissibleEntry (entry : String × Value) : Prop where
  known : entry.1 ∈ keys
  text : ∀ f : TextSetting, entry.1 = f.key → ∃ text, entry.2 = .text text
  exclusions : entry.1 = "exclusions" → AdmissibleExclusions entry.2

/-- The lists of the exclusions are those of the entries, and the defaults where there is none. -/
def OverridesExclusions (entries : List (String × Value)) (e : Exclusions) : Prop :=
  ∀ l : ExclusionList,
    Overridden entries l.key (fun v texts => v = .array (texts.map .text)) (l.get {}) (l.get e)

/-- The settings are those of the entries, and the defaults where there is none. -/
structure Overrides (entries : List (String × Value)) (s : Settings) : Prop where
  texts : ∀ f : TextSetting,
    Overridden entries f.key (fun v text => v = .text text) (f.get {}) (f.get s)
  exclusions : Overridden entries "exclusions"
    (fun v e => ∃ inner, v = .table inner ∧ OverridesExclusions inner e) {} s.exclusions

theorem setExclusion_succeeds_iff (e : Exclusions) (entry : String × Value) :
    (∃ e', setExclusion e entry = .ok e') ↔
      entry.1 ∈ exclusionKeys ∧ ∃ texts : List String, entry.2 = .array (texts.map .text) := by
  obtain ⟨k, v⟩ := entry
  simp only [setExclusion_eq_ok_iff, mem_exclusionKeys_iff]
  constructor
  · rintro ⟨_, l, texts, hk, hv, -⟩
    exact ⟨⟨l, hk⟩, texts, hv⟩
  · rintro ⟨⟨l, hk⟩, texts, hv⟩
    exact ⟨_, l, texts, hk, hv, rfl⟩

theorem exclusionsOf_succeeds_iff {v : Value} (harray : ∀ items, v ≠ .array items) :
    (∃ e, exclusionsOf v = .ok e) ↔ AdmissibleExclusions v := by
  cases v with
  | table entries =>
    rw [exclusionsOf, foldlM_succeeds_iff fun entry _ e => setExclusion_succeeds_iff e entry]
    simp [AdmissibleExclusions, (inOrder_perm entries).mem_iff]
  | array items => exact (harray items rfl).elim
  | text | whole | fractional | boolean | moment => simp [exclusionsOf, AdmissibleExclusions]

theorem set_succeeds_iff {entry : String × Value}
    (harray : ∀ items, entry ≠ ("exclusions", .array items)) (s : Settings) :
    (∃ s', set s entry = .ok s') ↔ AdmissibleEntry entry := by
  obtain ⟨k, v⟩ := entry
  simp only [set_eq_ok_iff]
  constructor
  · rintro ⟨_, ⟨f, text, rfl, rfl, -⟩ | ⟨rfl, e, he, -⟩⟩
    · exact ⟨mem_keys_iff.2 (.inl ⟨f, rfl⟩), fun _ _ => ⟨text, rfl⟩,
        fun hkey => (f.key_ne_exclusions hkey).elim⟩
    · have hv : ∀ items, v ≠ .array items := fun items hv => harray items (by rw [hv])
      exact ⟨mem_keys_iff.2 (.inr rfl), fun f hkey => (f.key_ne_exclusions hkey.symm).elim,
        fun _ => (exclusionsOf_succeeds_iff hv).1 ⟨e, he⟩⟩
  · rintro ⟨hknown, htext, hexclusions⟩
    rcases mem_keys_iff.1 hknown with ⟨f, hkey⟩ | hkey
    · obtain ⟨text, hv⟩ := htext f hkey
      exact ⟨_, .inl ⟨f, text, hkey, hv, rfl⟩⟩
    · have hv : ∀ items, v ≠ .array items := fun items hv => harray items (Prod.ext hkey hv)
      obtain ⟨e, he⟩ := (exclusionsOf_succeeds_iff hv).2 (hexclusions hkey)
      exact ⟨_, .inr ⟨hkey, e, he, rfl⟩⟩

variable {entries : List (String × Value)}

theorem ofEntries_succeeds_iff (harray : ∀ items, ("exclusions", .array items) ∉ entries) :
    (∃ s, ofEntries entries = .ok s) ↔ ∀ entry ∈ entries, AdmissibleEntry entry := by
  have hperm := inOrder_perm entries
  rw [ofEntries, foldlM_succeeds_iff fun entry hmem s => set_succeeds_iff (fun items hentry =>
    harray items (hentry ▸ hperm.mem_iff.1 hmem)) s]
  simp only [hperm.mem_iff]

theorem exclusionsOf_overrides {e : Exclusions} (hdistinct : (entries.map Prod.fst).Nodup)
    (h : exclusionsOf (.table entries) = .ok e) : OverridesExclusions entries e := fun l =>
  ((governs_list l).overridden (inOrder_distinct hdistinct) h).of_perm (inOrder_perm entries)

theorem ofEntries_overrides {s : Settings} (hkeyed : (Value.table entries).WellKeyed)
    (harray : ∀ items, ("exclusions", .array items) ∉ entries) (h : ofEntries entries = .ok s) :
    Overrides entries s := by
  obtain ⟨hdistinct, hvalues⟩ := hkeyed.of_table
  have hordered := inOrder_distinct hdistinct
  have hperm := inOrder_perm entries
  refine ⟨fun f => ((governs_text f).overridden hordered h).of_perm hperm, ?_⟩
  obtain ⟨hgiven, habsent⟩ := (governs_exclusions.overridden hordered h).of_perm hperm
  refine ⟨fun v hv => ?_, habsent⟩
  have hread := hgiven v hv
  obtain ⟨inner, rfl, -⟩ :=
    (exclusionsOf_succeeds_iff fun items hitems => harray items (hitems ▸ hv)).1 ⟨_, hread⟩
  obtain ⟨hinner, -⟩ := (hvalues _ hv).of_table
  exact ⟨inner, rfl, exclusionsOf_overrides hinner hread⟩

end Settings

/-! ## The order of keys -/

/-- The values are the same but for the order in which tables, at any depth, have their keys. -/
inductive Toml.Value.Reorders : Value → Value → Prop where
  | same (v : Value) : Reorders v v
  | array {items items' : List Value} (each : List.Forall₂ Reorders items items') :
      Reorders (.array items) (.array items')
  | table {entries entries' : List (String × Value)}
      (keys : (entries.map Prod.fst).Perm (entries'.map Prod.fst))
      (values : ∀ key v v', (key, v) ∈ entries → (key, v') ∈ entries' → Reorders v v') :
      Reorders (.table entries) (.table entries')

/-- A table whose entries are moved has its keys in another order. -/
theorem Toml.Value.Reorders.of_perm {entries entries' : List (String × Value)}
    (hdistinct : (entries.map Prod.fst).Nodup) (h : entries.Perm entries') :
    (Value.table entries).Reorders (.table entries') := by
  refine .table (h.map Prod.fst) fun key v v' hv hv' => ?_
  have hsame : (key, v) = (key, v') :=
    List.inj_on_of_nodup_map hdistinct hv (h.mem_iff.2 hv') rfl
  cases hsame
  exact .same v

/-- The entries have the same key, and the same value but for the order of keys. -/
def EntryReorders (entry entry' : String × Value) : Prop :=
  entry.1 = entry'.1 ∧ entry.2.Reorders entry'.2

/-- The faults are the same, but that what was found may have its keys in another order. -/
inductive SettingsFault.Alike : SettingsFault → SettingsFault → Prop where
  | unknownField (key : String) (known : List String) :
      Alike (.unknownField key known) (.unknownField key known)
  | wrongKind {found found' : Value} (h : found.Reorders found') (expected : String) :
      Alike (.wrongKind found expected) (.wrongKind found' expected)

/-- The same comes out, or alike faults. -/
inductive Agree {α : Type} : Except SettingsFault α → Except SettingsFault α → Prop where
  | ok (a : α) : Agree (.ok a) (.ok a)
  | error {fault fault' : SettingsFault} (h : fault.Alike fault') :
      Agree (.error fault) (.error fault')

theorem SettingsFault.Alike.refl : ∀ fault : SettingsFault, fault.Alike fault
  | .unknownField key known => .unknownField key known
  | .wrongKind found expected => .wrongKind (.same found) expected

/-- The order of keys is not seen in the reason of a fault. -/
theorem SettingsFault.Alike.reason?_eq {fault fault' : SettingsFault} (h : fault.Alike fault') :
    fault.reason? = fault'.reason? := by
  cases h with
  | unknownField => rfl
  | wrongKind h => cases h <;> rfl

namespace Agree

variable {α β : Type}

theorem ok_or_error {x y : Except SettingsFault α} (h : Agree x y) :
    (∃ a, x = .ok a ∧ y = .ok a) ∨
      ∃ fault fault', x = .error fault ∧ y = .error fault' ∧ fault.Alike fault' := by
  cases h with
  | ok a => exact .inl ⟨a, rfl, rfl⟩
  | error h => exact .inr ⟨_, _, rfl, rfl, h⟩

theorem refl : ∀ x : Except SettingsFault α, Agree x x
  | .ok a => .ok a
  | .error fault => .error (.refl fault)

theorem bind {x y : Except SettingsFault α} {f g : α → Except SettingsFault β} (h : Agree x y)
    (hfg : ∀ a, Agree (f a) (g a)) : Agree (x >>= f) (y >>= g) := by
  cases h with
  | ok a => exact hfg a
  | error h => exact .error h

theorem map {x y : Except SettingsFault α} (h : Agree x y) (f : α → β) :
    Agree (x.map f) (y.map f) := by
  cases h with
  | ok a => exact .ok (f a)
  | error h => exact .error h

theorem mapM {f : β → Except SettingsFault α} {R : β → β → Prop} {xs ys : List β}
    (h : List.Forall₂ R xs ys) (hf : ∀ {x y}, R x y → Agree (f x) (f y)) :
    Agree (xs.mapM f) (ys.mapM f) := by
  induction h with
  | nil => exact .refl _
  | cons hxy _ ih =>
    rw [List.mapM_cons, List.mapM_cons]
    exact (hf hxy).bind fun a => ih.bind fun as => .refl _

theorem foldlM {f : α → β → Except SettingsFault α} {R : β → β → Prop} {xs ys : List β}
    (h : List.Forall₂ R xs ys) (hf : ∀ a {x y}, R x y → Agree (f a x) (f a y)) (a : α) :
    Agree (xs.foldlM f a) (ys.foldlM f a) := by
  induction h generalizing a with
  | nil => exact .refl _
  | cons hxy _ ih =>
    rw [List.foldlM_cons, List.foldlM_cons]
    exact (hf a hxy).bind ih

end Agree

namespace Settings

theorem textOf_agrees {v v' : Value} (h : v.Reorders v') : Agree (textOf v) (textOf v') := by
  cases h with
  | same => exact .refl _
  | array each => exact .error (.wrongKind (.array each) _)
  | table hkeys hvalues => exact .error (.wrongKind (.table hkeys hvalues) _)

theorem textsOf_agrees {v v' : Value} (h : v.Reorders v') : Agree (textsOf v) (textsOf v') := by
  cases h with
  | same => exact .refl _
  | array each => exact .mapM each textOf_agrees
  | table hkeys hvalues => exact .error (.wrongKind (.table hkeys hvalues) _)

theorem setExclusion_agrees (e : Exclusions) {entry entry' : String × Value}
    (h : EntryReorders entry entry') : Agree (setExclusion e entry) (setExclusion e entry') := by
  obtain ⟨k, v⟩ := entry
  obtain ⟨k', v'⟩ := entry'
  obtain ⟨rfl, hvalue⟩ := h
  by_cases hk : k ∈ exclusionKeys
  · obtain ⟨l, rfl⟩ := mem_exclusionKeys_iff.1 hk
    rw [setExclusion_key, setExclusion_key]
    exact (textsOf_agrees hvalue).map _
  · rw [setExclusion_unknown e hk, setExclusion_unknown e hk]
    exact .refl _

/-- Entries in the order of their keys go together where they have the same keys. -/
theorem forall₂_inOrder {entries entries' : List (String × Value)}
    (hkeys : (entries.map Prod.fst).Perm (entries'.map Prod.fst))
    (hvalues : ∀ key v v', (key, v) ∈ entries → (key, v') ∈ entries' → v.Reorders v') :
    List.Forall₂ EntryReorders (inOrder entries) (inOrder entries') := by
  have horder : ∀ a b : String × Value, Text.order a.1 b.1 = Text.order a.1 b.1 := fun _ _ => rfl
  have hsame : (inOrder entries).map Prod.fst = (inOrder entries').map Prod.fst :=
    SortedBy.map_key_of_keys horder (.mergeSort entries) (.mergeSort entries') hkeys
  rw [← List.forall₂_eq_eq_eq, List.forall₂_map_left_iff, List.forall₂_map_right_iff,
    List.forall₂_iff_zip] at hsame
  obtain ⟨hlength, hzip⟩ := hsame
  refine List.forall₂_iff_zip.2 ⟨hlength, ?_⟩
  rintro ⟨k, v⟩ ⟨k', v'⟩ hmem
  obtain rfl : k = k' := hzip hmem
  obtain ⟨hv, hv'⟩ := List.of_mem_zip hmem
  exact ⟨rfl, hvalues k v v' ((inOrder_perm _).mem_iff.1 hv) ((inOrder_perm _).mem_iff.1 hv')⟩

theorem forall₂_zip {items items' : List Value} (h : List.Forall₂ Value.Reorders items items')
    (ks : List String) : List.Forall₂ EntryReorders (ks.zip items) (ks.zip items') := by
  induction h generalizing ks with
  | nil => simp
  | cons hv _ ih =>
    cases ks with
    | nil => exact .nil
    | cons k ks => exact .cons ⟨rfl, hv⟩ (ih ks)

theorem exclusionsOf_agrees {v v' : Value} (h : v.Reorders v') :
    Agree (exclusionsOf v) (exclusionsOf v') := by
  cases h with
  | same => exact .refl _
  | array each => exact .foldlM (forall₂_zip each _) setExclusion_agrees _
  | table hkeys hvalues => exact .foldlM (forall₂_inOrder hkeys hvalues) setExclusion_agrees _

theorem set_agrees (s : Settings) {entry entry' : String × Value}
    (h : EntryReorders entry entry') : Agree (set s entry) (set s entry') := by
  obtain ⟨k, v⟩ := entry
  obtain ⟨k', v'⟩ := entry'
  obtain ⟨rfl, hvalue⟩ := h
  by_cases hk : k ∈ keys
  · rcases mem_keys_iff.1 hk with ⟨f, rfl⟩ | rfl
    · rw [set_text, set_text]
      exact (textOf_agrees hvalue).map _
    · rw [set_exclusions, set_exclusions]
      exact (exclusionsOf_agrees hvalue).map _
  · rw [set_unknown s hk, set_unknown s hk]
    exact .refl _

theorem ofEntries_agrees {entries entries' : List (String × Value)}
    (h : (Value.table entries).Reorders (.table entries')) :
    Agree (ofEntries entries) (ofEntries entries') := by
  cases h with
  | same => exact .refl _
  | table hkeys hvalues => exact .foldlM (forall₂_inOrder hkeys hvalues) set_agrees _

/-! ## Documents -/

theorem parse_eq {document : String} {entries : List (String × Value)}
    (h : Toml.read? document = some entries) :
    parse document = (ofEntries entries).mapError .rejected := by
  rw [parse, h]

theorem parse_eq_ok_iff {document : String} {entries : List (String × Value)}
    (h : Toml.read? document = some entries) {s : Settings} :
    parse document = .ok s ↔ ofEntries entries = .ok s := by
  rw [parse_eq h]
  cases ofEntries entries <;> simp [Except.mapError]

/-- A document whose exclusions are no list gives settings exactly if all its entries are of settings
and have values of their kinds. Then the settings have its values, and defaults for all that it leaves
out, each list of the exclusions by itself. And the order in which it gives keys, at any depth, counts
neither for the settings nor for the fault that is told. -/
theorem parse_overrides {document : String} {entries : List (String × Value)}
    (hread : Toml.read? document = some entries)
    (harray : ∀ items, ("exclusions", .array items) ∉ entries) :
    ((∃ s, parse document = .ok s) ↔ ∀ entry ∈ entries, AdmissibleEntry entry) ∧
      (∀ s, parse document = .ok s → Overrides entries s) ∧
      ∀ document' entries', Toml.read? document' = some entries' →
        (Value.table entries).Reorders (.table entries') →
        (∃ s, parse document = .ok s ∧ parse document' = .ok s) ∨
          ∃ fault fault', parse document = .error (.rejected fault) ∧
            parse document' = .error (.rejected fault') ∧
            fault.Alike fault' ∧ fault.reason? = fault'.reason? := by
  refine ⟨?_, fun s hs => ?_, fun document' entries' hread' hreorders => ?_⟩
  · simp only [parse_eq_ok_iff hread]
    exact ofEntries_succeeds_iff harray
  · rw [parse_eq_ok_iff hread] at hs
    exact ofEntries_overrides (Toml.read?_wellKeyed hread) harray hs
  · rw [parse_eq hread, parse_eq hread']
    rcases (ofEntries_agrees hreorders).ok_or_error with ⟨s, hs, hs'⟩ | ⟨fault, fault', hf, hf', h⟩
    · rw [hs, hs']
      exact .inl ⟨s, rfl, rfl⟩
    · rw [hf, hf']
      exact .inr ⟨fault, fault', rfl, rfl, h, h.reason?_eq⟩

/-- The release line, and one list of the exclusions under a header. -/
def tabled : String := "release_line = \"9.1\"\n[exclusions]\nnames = [\"extra.jar\"]\n"

/-- The same with the exclusions first, by a dotted key. -/
def dotted : String := "exclusions.names = [\"extra.jar\"]\nrelease_line = \"9.1\"\n"

def releaseEntry : String × Value := ("release_line", .text "9.1")

def exclusionsEntry : String × Value :=
  ("exclusions", .table [("names", .array [.text "extra.jar"])])

theorem tabled_overrides :
    Toml.read? tabled = some [releaseEntry, exclusionsEntry] ∧
      Toml.read? dotted = some [exclusionsEntry, releaseEntry] ∧
      ∃ s, parse tabled = .ok s ∧ parse dotted = .ok s ∧
        s.releaseLine = "9.1" ∧ s.binaryExtension = "jar" ∧
        s.exclusions.names = ["extra.jar"] ∧ s.exclusions.prefixes = ["tomcat-i18n"] := by
  have htabled : Toml.read? tabled = some [releaseEntry, exclusionsEntry] := by decide +kernel
  have hdotted : Toml.read? dotted = some [exclusionsEntry, releaseEntry] := by decide +kernel
  have harray : ∀ items, ("exclusions", .array items) ∉ [releaseEntry, exclusionsEntry] := by
    simp [releaseEntry, exclusionsEntry]
  obtain ⟨hsucceeds, hvalues, horder⟩ := parse_overrides htabled harray
  have hrelease : AdmissibleEntry releaseEntry :=
    ⟨by decide, fun _ _ => ⟨"9.1", rfl⟩, fun hkey => absurd hkey (by decide)⟩
  have hexclusions : AdmissibleEntry exclusionsEntry :=
    ⟨by decide, fun f hkey => (f.key_ne_exclusions hkey.symm).elim,
      fun _ => ⟨_, rfl, List.forall_mem_singleton.2 ⟨by decide, ["extra.jar"], rfl⟩⟩⟩
  obtain ⟨s, hs⟩ := hsucceeds.2 (by simpa using ⟨hrelease, hexclusions⟩)
  have hswap := Value.Reorders.of_perm (by decide) (List.Perm.swap exclusionsEntry releaseEntry [])
  have hs' : parse dotted = .ok s := by
    obtain ⟨s', hs', hd⟩ | ⟨_, _, hfault, -⟩ := horder _ _ hdotted hswap
    · rwa [Except.ok.inj (hs.symm.trans hs')]
    · rw [hs] at hfault
      cases hfault
  obtain ⟨htexts, hlists⟩ := hvalues s hs
  have hline := (htexts .releaseLine).given (.text "9.1") (.head _)
  have hextension := (htexts .binaryExtension).absent (by
    simp [releaseEntry, exclusionsEntry, TextSetting.key])
  obtain ⟨inner, hinner, hlists⟩ := hlists.given exclusionsEntry.2 (.tail _ (.head _))
  cases hinner
  have hnames := textsOf_eq_ok_iff.2 ((hlists .names).given _ (.head _))
  have hprefixes := (hlists .prefixes).absent (by simp [ExclusionList.key])
  exact ⟨htabled, hdotted, s, hs, hs', (Value.text.inj hline).symm, hextension,
    (Except.ok.inj hnames).symm, hprefixes⟩

end Settings
end BillOfMaterials
