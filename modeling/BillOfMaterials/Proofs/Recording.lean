import BillOfMaterials.Proofs.Origins
import Mathlib.Data.List.Dedup
import Mathlib.Data.List.Induction
import Mathlib.Data.List.ReduceOption

/-!
# What an index holds after a history of records

Paths are recorded one after the other, starting from nothing. Each path takes the place of the last
one before it with its file name, and this is what the call answers and logs. So at the end the index
holds the last path of each file name, and every path with a file name is either held or was put out
once. What is found for a name can be read off the history.
-/
namespace BillOfMaterials.ArtifactIndex

/-- An index in the making, with what recording has answered and logged so far. -/
structure History where
  index : ArtifactIndex
  /-- For each recorded path, the path that it put out. -/
  answers : List (Option Path)
  log : Log

def History.record (h : History) (path : Path) : History where
  index := (h.index.recordLogged path).1
  answers := h.answers ++ [h.index.displaced? path]
  log := h.log ++ (h.index.recordLogged path).2

/-- Records paths one after the other, where nothing is recorded yet. -/
def recordAll (root : Path) (paths : List Path) : History :=
  paths.foldl History.record ⟨empty root, [], []⟩

/-- The last of some paths that has the file name `f`. -/
def lastNamed? (paths : List Path) (f : Bytes) : Option Path :=
  (paths.filter fun path => decide (path.fileName? = some f)).getLast?

variable {root path : Path} {paths : List Path} {h : History} {f : Bytes}

theorem lastNamed?_concat (paths : List Path) (path : Path) (f : Bytes) :
    lastNamed? (paths ++ [path]) f =
      if path.fileName? = some f then some path else lastNamed? paths f := by
  unfold lastNamed?
  rw [List.filter_append]
  by_cases hf : path.fileName? = some f
  · rw [if_pos hf, List.filter_cons_of_pos (by simpa using hf), List.filter_nil,
      List.getLast?_concat]
  · rw [if_neg hf, List.filter_cons_of_neg (by simpa using hf), List.filter_nil, List.append_nil]

theorem lastNamed?_isSome :
    (lastNamed? paths f).isSome ↔ ∃ path ∈ paths, path.fileName? = some f := by
  unfold lastNamed?
  rw [List.getLast?_isSome, Ne, List.filter_eq_nil_iff]
  simp

/-- One more path with a file name is held, or takes the place of one that was held. -/
theorem size_record (index : ArtifactIndex) (path : Path) :
    (index.record path).size + (index.displaced? path).toList.length =
      index.size + path.fileName?.toList.length := by
  unfold record displaced? size
  cases path.fileName? with
  | none => rfl
  | some name =>
    dsimp only [Option.bind_some]
    rw [Std.TreeMap.size_insert, Std.TreeMap.contains_eq_isSome_getElem?]
    cases index.files[name]? <;> rfl

/-- What is known of an index that `paths` have been recorded in. -/
structure Accounts (paths : List Path) (h : History) : Prop where
  /-- Each file name has the last path of that name. -/
  files : ∀ f : Bytes, h.index.files[f]? = lastNamed? paths f
  /-- Each path has put out the last one before it of its file name. -/
  answered : ∀ before path after, paths = before ++ path :: after →
    h.answers[before.length]? = some (path.fileName?.bind (lastNamed? before))
  length : h.answers.length = paths.length
  size : h.index.size + h.answers.reduceOption.length = (paths.filterMap Path.fileName?).length
  /-- What was put out was logged, and nothing else. -/
  log : h.log = h.answers.reduceOption.map displacement

theorem Accounts.start (root : Path) : Accounts [] ⟨empty root, [], []⟩ where
  files _ := Std.TreeMap.getElem?_emptyc
  answered before path after hsplit := by simp at hsplit
  length := rfl
  size := rfl
  log := rfl

/-- Recording one more path keeps the account. -/
theorem Accounts.record (ha : Accounts paths h) (path : Path) :
    Accounts (paths ++ [path]) (h.record path) where
  files f := by
    show (h.index.record path).files[f]? = _
    rw [files_record, lastNamed?_concat, ha.files]
  answered before other after hsplit := by
    show (h.answers ++ [h.index.displaced? path])[before.length]? = _
    rcases List.eq_nil_or_concat after with rfl | ⟨middle, last, rfl⟩
    · obtain ⟨rfl, hlast⟩ := List.append_inj' hsplit rfl
      cases hlast
      rw [← ha.length, List.getElem?_concat_length]
      unfold displaced?
      simp only [ha.files]
    · rw [List.concat_eq_append, ← List.cons_append, ← List.append_assoc] at hsplit
      obtain ⟨hbefore, -⟩ := List.append_inj' hsplit rfl
      have hlt : before.length < h.answers.length := by
        rw [ha.length, hbefore, List.length_append, List.length_cons]
        omega
      rw [List.getElem?_append_left hlt, ha.answered before other middle hbefore]
  length := by
    show (h.answers ++ _).length = _
    rw [List.length_append, List.length_append, ha.length]
    rfl
  size := by
    show (h.index.record path).size + (h.answers ++ [h.index.displaced? path]).reduceOption.length
      = _
    have hone := size_record h.index path
    have hbefore := ha.size
    have hname : [path].filterMap Path.fileName? = path.fileName?.toList :=
      List.reduceOption_singleton path.fileName?
    rw [List.reduceOption_append, List.reduceOption_singleton, List.length_append,
      List.filterMap_append, List.length_append, hname]
    omega
  log := by
    show h.log ++ (h.index.displaced? path).toList.map displacement = _
    rw [ha.log, ← List.map_append, ← List.reduceOption_singleton, ← List.reduceOption_append]
    rfl

theorem accounts_recordAll (root : Path) (paths : List Path) :
    Accounts paths (recordAll root paths) := by
  induction paths using List.reverseRecOn with
  | nil => exact .start root
  | append_singleton paths path ih =>
    rw [recordAll, List.foldl_append]
    exact ih.record path

section Found

variable (ha : Accounts paths h)

include ha

theorem Accounts.mem_files : f ∈ h.index.files ↔ ∃ path ∈ paths, path.fileName? = some f := by
  rw [Std.TreeMap.mem_iff_isSome_getElem?, ha.files, lastNamed?_isSome]

/-- As many names are held as there are different ones in the history. -/
theorem Accounts.size_eq : h.index.size = (paths.filterMap Path.fileName?).dedup.length := by
  refine size_eq_length (List.nodup_dedup _) fun f => ?_
  rw [List.mem_dedup, List.mem_filterMap, ha.mem_files]

theorem Accounts.find?_eq_some_iff {name : String} :
    h.index.find? name = some path ↔
      ∃ f, StandsFor (fun f => ∃ p ∈ paths, p.fileName? = some f) name f ∧
        lastNamed? paths f = some path := by
  have hheld : (· ∈ h.index.files) = fun f => ∃ p ∈ paths, p.fileName? = some f :=
    funext fun f => propext ha.mem_files
  rw [ArtifactIndex.find?_eq_some_iff, hheld]
  simp only [ha.files]

theorem Accounts.find?_eq_none_iff {name : String} :
    h.index.find? name = none ↔
      ¬∃ f, StandsFor (fun f => ∃ p ∈ paths, p.fileName? = some f) name f := by
  rw [← Option.not_isSome_iff_eq_none, not_iff_not, Option.isSome_iff_exists]
  constructor
  · rintro ⟨path, hfound⟩
    obtain ⟨f, hstands, -⟩ := ha.find?_eq_some_iff.1 hfound
    exact ⟨f, hstands⟩
  · rintro ⟨f, hstands⟩
    obtain ⟨path, hlast⟩ := Option.isSome_iff_exists.1 (lastNamed?_isSome.2 hstands.recorded)
    exact ⟨path, ha.find?_eq_some_iff.2 ⟨f, hstands, hlast⟩⟩

end Found

/-- What an index finds after a history of records is decided by the history. For a name it is the last
path of that file name; where there is none, the last path of the least file name that begins with the
last four characters of the name; and nothing else. As many names are held as there are different ones,
and every other path with a file name was put out, answered and logged once, when the next path of its
name came. -/
theorem recordAll_history (root : Path) (paths : List Path) (name : String) :
    let h := recordAll root paths
    let recorded (f : Bytes) : Prop := ∃ path ∈ paths, path.fileName? = some f
    (∀ path, h.index.find? name = some path ↔
        ∃ f, StandsFor recorded name f ∧ lastNamed? paths f = some path) ∧
      (h.index.find? name = none ↔ ¬∃ f, StandsFor recorded name f) ∧
      h.index.size = (paths.filterMap Path.fileName?).dedup.length ∧
      (paths.filterMap Path.fileName?).length =
        h.index.size + h.answers.reduceOption.length ∧
      (∀ before path after, paths = before ++ path :: after →
        h.answers[before.length]? = some (path.fileName?.bind (lastNamed? before))) ∧
      h.log = h.answers.reduceOption.map displacement := by
  have ha := accounts_recordAll root paths
  exact ⟨fun path => ha.find?_eq_some_iff, ha.find?_eq_none_iff, ha.size_eq, ha.size.symm,
    ha.answered, ha.log⟩

end BillOfMaterials.ArtifactIndex
