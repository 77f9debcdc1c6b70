import BillOfMaterials.Mapping
import Mathlib.Data.List.Forall2
import Mathlib.Data.List.Infix

/-!
# What the log says of binaries

Every binary of an archive leaves one record, and where it is put depends on what the record says: a
binary that is excluded is put nowhere, one whose module is known puts that module into one list,
and one whose module is unknown is put into the other. So the records and the two lists grow
together, and the log balances: the binaries that it calls excluded and the two counts in its last
line make up all binaries. The log alone says which of them are excluded, since no other remark on a
binary ends like that one. Which records a log shows that is kept down to a level is not considered.
-/
namespace BillOfMaterials

/-- Whether a record says of a binary that it is excluded. -/
def LogRecord.saysExcluded (r : LogRecord) : Bool :=
  r.level == .trace && Text.endsWith r.message " excluded"

/-- A text does not end with `u` where its end can neither hold `u` nor be the end of it. -/
theorem Text.endsWith_append_eq_false {t u : String} (s : String) (h : ¬t.toList <:+ u.toList)
    (h' : ¬u.toList <:+ t.toList) : endsWith (s ++ t) u = false := by
  rw [endsWith, ← Bool.not_eq_true, List.isSuffixOf_iff_suffix, String.toList_append]
  intro hu
  rcases List.suffix_or_suffix_of_suffix (List.suffix_append s.toList t.toList) hu with ht | ht
  · exact h ht
  · exact h' ht

namespace Mapping

/-- Binaries are taken one by one: the records that they leave, the modules that are listed and the
names that are listed as unknown. -/
inductive Accounts (m : Mapping) : List String → Log → List Coordinate → List String → Prop
  | none : Accounts m [] [] [] []
  | excluded {name names log coordinates unknown} (he : m.settings.excludes name = true)
      (h : Accounts m names log coordinates unknown) :
    Accounts m (name :: names) (⟨.trace, .mapping, name ++ " excluded"⟩ :: log) coordinates unknown
  | ruled {name names log coordinates unknown c rule} (he : m.settings.excludes name = false)
      (hi : m.identify name = .ruled c rule) (h : Accounts m names log coordinates unknown) :
    Accounts m (name :: names) (⟨.trace, .mapping, remark name (.ruled c rule)⟩ :: log)
      (c :: coordinates) unknown
  | found {name names log coordinates unknown c path} (he : m.settings.excludes name = false)
      (hi : m.identify name = .found c path) (h : Accounts m names log coordinates unknown) :
    Accounts m (name :: names) (⟨.trace, .mapping, remark name (.found c path)⟩ :: log)
      (c :: coordinates) unknown
  | unknown {name names log coordinates unknown} (he : m.settings.excludes name = false)
      (hi : m.identify name = .unknown) (h : Accounts m names log coordinates unknown) :
    Accounts m (name :: names) (⟨.trace, .mapping, remark name .unknown⟩ :: log) coordinates
      (name :: unknown)

/-- What a binary leaves in the log: a trace that begins with its name, and calls it excluded where
it is excluded and only there. -/
structure Traces (m : Mapping) (name : String) (r : LogRecord) : Prop where
  level : r.level = .trace
  topic : r.topic = .mapping
  named : Text.startsWith r.message name = true
  excluded : r.saysExcluded = m.settings.excludes name

variable {m : Mapping} {names : List String} {log : Log} {coordinates : List Coordinate}
  {unknown : List String}

/-- The records of binaries go with the lists of their distribution. -/
theorem accounts_records (m : Mapping) (binaries : List String) :
    Accounts m binaries (binaries.map m.record)
      ((m.included binaries).filterMap fun name => (m.identify name).coordinate?)
      ((m.included binaries).filter fun name => (m.identify name).coordinate?.isNone) := by
  induction binaries with
  | nil => exact .none
  | cons name names ih =>
    unfold included at ih ⊢
    rw [List.map_cons, List.filter_cons]
    cases he : m.settings.excludes name with
    | true =>
      have hrecord : m.record name = ⟨.trace, .mapping, name ++ " excluded"⟩ := by
        rw [record, if_pos he]
      rw [hrecord]
      exact .excluded he ih
    | false =>
      have hrecord : m.record name = ⟨.trace, .mapping, remark name (m.identify name)⟩ := by
        rw [record, if_neg (by simp [he])]
      rw [hrecord]
      cases hi : m.identify name with
      | ruled c rule =>
        simpa [hi, Identity.coordinate?] using Accounts.ruled he hi ih
      | found c path =>
        simpa [hi, Identity.coordinate?] using Accounts.found he hi ih
      | unknown =>
        simpa [hi, Identity.coordinate?] using Accounts.unknown he hi ih

/-- No remark on a binary that is not excluded ends as if it were: it ends with a bracket or with a
word of its own. -/
theorem saysExcluded_remark (name : String) (identity : Identity) :
    LogRecord.saysExcluded ⟨.trace, .mapping, remark name identity⟩ = false := by
  have hends : Text.endsWith (remark name identity) " excluded" = false := by
    cases identity with
    | ruled c rule => exact Text.endsWith_append_eq_false _ (by decide) (by decide)
    | found c path => exact Text.endsWith_append_eq_false _ (by decide) (by decide)
    | unknown => exact Text.endsWith_append_eq_false _ (by decide) (by decide)
  simp [LogRecord.saysExcluded, hends]

theorem saysExcluded_excluded (name : String) :
    LogRecord.saysExcluded ⟨.trace, .mapping, name ++ " excluded"⟩ = true := by
  simp [LogRecord.saysExcluded, Text.endsWith]

/-- The remark on a binary that is not excluded is its trace. -/
theorem traces_remark {name : String} (he : m.settings.excludes name = false)
    (identity : Identity) : m.Traces name ⟨.trace, .mapping, remark name identity⟩ := by
  refine ⟨rfl, rfl, ?_, (saysExcluded_remark name identity).trans he.symm⟩
  cases identity <;> simp [remark, Text.startsWith]

/-- Binaries that are taken leave one trace each, in their order. -/
theorem Accounts.traces (h : Accounts m names log coordinates unknown) :
    List.Forall₂ m.Traces names log := by
  induction h with
  | none => exact .nil
  | @excluded name _ _ _ _ he _ ih =>
    refine .cons ⟨rfl, rfl, ?_, (saysExcluded_excluded name).trans he.symm⟩ ih
    simp [Text.startsWith]
  | ruled he _ _ ih => exact .cons (traces_remark he _) ih
  | found he _ _ ih => exact .cons (traces_remark he _) ih
  | unknown he _ _ ih => exact .cons (traces_remark he _) ih

theorem countP_cons_remark (name : String) (identity : Identity) (log : Log) :
    (⟨.trace, .mapping, remark name identity⟩ :: log).countP LogRecord.saysExcluded =
      log.countP LogRecord.saysExcluded :=
  List.countP_cons_of_neg (Bool.eq_false_iff.mp (saysExcluded_remark name identity))

/-- Binaries that are taken are each called excluded, or listed once in one of the two lists. -/
theorem Accounts.balance (h : Accounts m names log coordinates unknown) :
    log.countP LogRecord.saysExcluded + coordinates.length + unknown.length = names.length := by
  induction h with
  | none => rfl
  | @excluded name _ _ _ _ _ _ ih =>
    rw [List.countP_cons_of_pos (saysExcluded_excluded name), List.length_cons]
    omega
  | @ruled name _ _ _ _ c rule _ _ _ ih =>
    rw [countP_cons_remark name (.ruled c rule), List.length_cons, List.length_cons]
    omega
  | @found name _ _ _ _ c path _ _ _ ih =>
    rw [countP_cons_remark name (.found c path), List.length_cons, List.length_cons]
    omega
  | @unknown name _ _ _ _ _ _ _ ih =>
    rw [countP_cons_remark name .unknown, List.length_cons, List.length_cons]
    omega

/-- The log of a distribution accounts for every binary: one trace for each entry of the archive, in
their order, and one line on the whole, which gives the lengths of the two lists; the entries called
excluded and these two numbers make up all entries. -/
theorem log_accounts (m : Mapping) (archive : String) (binaries : List String) :
    let (d, log) := m.distributionLogged archive binaries
    ∃ traces : Log,
      log = traces ++ [⟨.info, .mapping, archive ++ ": " ++ toString d.coordinates.length ++
        " coordinates, " ++ toString d.unknown.length ++ " unresolved"⟩] ∧
      List.Forall₂ m.Traces binaries traces ∧
      log.countP LogRecord.saysExcluded + d.coordinates.length + d.unknown.length =
        binaries.length := by
  have haccounts := accounts_records m binaries
  refine ⟨binaries.map m.record, rfl, haccounts.traces, ?_⟩
  have hlength : (m.distribution archive binaries).coordinates.length =
      ((m.included binaries).filterMap fun name => (m.identify name).coordinate?).length :=
    List.length_mergeSort _
  have hunknown : (m.distribution archive binaries).unknown =
      (m.included binaries).filter fun name => (m.identify name).coordinate?.isNone := rfl
  rw [List.countP_append, List.countP_singleton, hlength, hunknown]
  exact haccounts.balance

end Mapping
end BillOfMaterials
