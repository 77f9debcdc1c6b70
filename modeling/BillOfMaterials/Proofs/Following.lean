import BillOfMaterials.Proofs.Growth

/-!
# Following paths

`Leads` says in the form of rules where the steps of a path lead while more steps follow: through
directories, and through links as long as some are left. A lookup that succeeds has followed all its
steps but the last by these rules, whatever the last one is. The rules read a tree only where it has
entries, so they stay true as the tree grows; and they pass over `.`. `Finds` are the rules for a
whole lookup, the last step and where it ends included.
-/
namespace BillOfMaterials.FileTree

open BillOfMaterials.Path (dot)

/-- Following `steps` from `loc`, with `n` links left, leads to `loc'` with `m` links left, where
further steps go on. -/
inductive Leads (t : FileTree) : Nat → Location → List Bytes → Nat → Location → Prop
  | here {n : Nat} {loc : Location} : Leads t n loc [] n loc
  | stay {n m : Nat} {loc loc' : Location} {rest : List Bytes} :
      Leads t n loc rest m loc' → Leads t n loc ([dot] :: rest) m loc'
  | up {n m : Nat} {loc loc' : Location} {rest : List Bytes} :
      Leads t n loc.dropLast rest m loc' → Leads t n loc ([dot, dot] :: rest) m loc'
  | down {n m : Nat} {loc loc' : Location} {step : Bytes} {rest : List Bytes} :
      step ≠ [dot] → step ≠ [dot, dot] → step.length ≤ maxName →
      t.at? (loc ++ [step]) = some .directory →
      Leads t n (loc ++ [step]) rest m loc' → Leads t n loc (step :: rest) m loc'
  | across {n m : Nat} {loc loc' : Location} {step : Bytes} {rest : List Bytes} {target : Path} :
      step ≠ [dot] → step ≠ [dot, dot] → step.length ≤ maxName →
      t.at? (loc ++ [step]) = some (.link target) →
      Leads t n (if target.isAbsolute then [] else loc) (target.steps ++ rest) m loc' →
      Leads t (n + 1) loc (step :: rest) m loc'

/-- What a lookup does at a link: it goes on with one link less. -/
def beyond (t : FileTree) (final : Bool) : Nat → Location → List Bytes → Except FileError Place
  | 0 => fun _ _ => .error .tooManyLinks
  | n + 1 => t.follow final n

theorem follow_eq (t : FileTree) (final : Bool) (n : Nat) :
    t.follow final n = t.followTo final (t.beyond final n) := by
  cases n <;> rfl

section Equations

variable (t : FileTree) (final : Bool) (n : Nat) (loc : Location) (rest : List Bytes)

theorem follow_nil : t.follow final n loc [] = .ok (.present loc) := by
  rw [follow_eq]; rfl

theorem follow_dot : t.follow final n loc ([dot] :: rest) = t.follow final n loc rest := by
  rw [follow_eq]; rfl

theorem follow_up :
    t.follow final n loc ([dot, dot] :: rest) = t.follow final n loc.dropLast rest := by
  rw [follow_eq]; rfl

variable {t final n loc rest} {step : Bytes} (hd : step ≠ [dot]) (hu : step ≠ [dot, dot])

include hd hu

theorem follow_long (hl : maxName < step.length) :
    t.follow final n loc (step :: rest) = .error .badName := by
  rw [follow_eq, followTo, if_neg hd, if_neg hu, if_pos hl]

theorem follow_name (hl : step.length ≤ maxName) :
    t.follow final n loc (step :: rest) =
      match t.at? (loc ++ [step]) with
      | none => if rest = [] then .ok (.absent loc step) else .error .notFound
      | some .directory => t.follow final n (loc ++ [step]) rest
      | some (.file _) =>
        if rest = [] then .ok (.present (loc ++ [step])) else .error .notDirectory
      | some (.link target) =>
        if rest = [] ∧ final = false then .ok (.present (loc ++ [step]))
        else t.beyond final n (if target.isAbsolute then [] else loc) (target.steps ++ rest) := by
  rw [follow_eq, followTo, if_neg hd, if_neg hu]
  exact if_neg (Nat.not_lt.2 hl)

theorem follow_down (hl : step.length ≤ maxName)
    (he : t.at? (loc ++ [step]) = some .directory) :
    t.follow final n loc (step :: rest) = t.follow final n (loc ++ [step]) rest := by
  rw [follow_name hd hu hl, he]

theorem follow_across (hl : step.length ≤ maxName) {target : Path}
    (he : t.at? (loc ++ [step]) = some (.link target)) (hr : rest ≠ []) :
    t.follow final n loc (step :: rest) =
      t.beyond final n (if target.isAbsolute then [] else loc) (target.steps ++ rest) := by
  rw [follow_name hd hu hl, he]
  exact if_neg fun h => hr h.1

end Equations

namespace Leads

variable {t u : FileTree} {n m k : Nat} {loc loc' loc'' : Location} {a b : List Bytes}

/-- A lookup goes on from where the steps lead. -/
theorem follow_append (h : t.Leads n loc a m loc') (final : Bool) (hb : b ≠ []) :
    t.follow final n loc (a ++ b) = t.follow final m loc' b := by
  induction h with
  | here => rfl
  | stay _ ih => rw [List.cons_append, follow_dot, ih]
  | up _ ih => rw [List.cons_append, follow_up, ih]
  | down hd hu hl he _ ih => rw [List.cons_append, follow_down hd hu hl he, ih]
  | across hd hu hl he _ ih =>
    rw [List.cons_append, follow_across hd hu hl he (List.append_ne_nil_of_right_ne_nil _ hb),
      ← List.append_assoc]
    exact ih

/-- A step `.` at the end asks for the directory that the steps lead to. -/
theorem follow_to (h : t.Leads n loc a m loc') (final : Bool) :
    t.follow final n loc (a ++ [[dot]]) = .ok (.present loc') := by
  rw [h.follow_append final (List.cons_ne_nil _ _), follow_dot, follow_nil]

/-- Without a step `.` the lookup ends there, too, if a link at the end is followed. -/
theorem follow_here (h : t.Leads n loc a m loc') : t.follow true n loc a = .ok (.present loc') := by
  induction h with
  | here => exact follow_nil ..
  | stay _ ih => rw [follow_dot, ih]
  | up _ ih => rw [follow_up, ih]
  | down hd hu hl he _ ih => rw [follow_down hd hu hl he, ih]
  | across hd hu hl he _ ih =>
    rw [follow_name hd hu hl, he]
    exact (if_neg nofun).trans ih

theorem append (h : t.Leads n loc a m loc') (h' : t.Leads m loc' b k loc'') :
    t.Leads n loc (a ++ b) k loc'' := by
  induction h with
  | here => exact h'
  | stay _ ih => exact .stay (ih h')
  | up _ ih => exact .up (ih h')
  | down hd hu hl he _ ih => exact .down hd hu hl he (ih h')
  | across hd hu hl he _ ih =>
    exact .across hd hu hl he (List.append_assoc .. ▸ ih h')

/-- The steps may be cut anywhere. -/
theorem split (h : t.Leads n loc (a ++ b) k loc'') :
    ∃ m loc', t.Leads n loc a m loc' ∧ t.Leads m loc' b k loc'' := by
  generalize hs : a ++ b = steps at h
  induction h generalizing a with
  | here =>
    obtain ⟨rfl, rfl⟩ := List.append_eq_nil_iff.1 hs
    exact ⟨_, _, .here, .here⟩
  | @stay n m loc loc' rest h ih =>
    rcases List.append_eq_cons_iff.1 hs with ⟨rfl, rfl⟩ | ⟨a', rfl, rfl⟩
    · exact ⟨_, _, .here, .stay h⟩
    · obtain ⟨m, l, h₁, h₂⟩ := ih rfl
      exact ⟨m, l, .stay h₁, h₂⟩
  | @up n m loc loc' rest h ih =>
    rcases List.append_eq_cons_iff.1 hs with ⟨rfl, rfl⟩ | ⟨a', rfl, rfl⟩
    · exact ⟨_, _, .here, .up h⟩
    · obtain ⟨m, l, h₁, h₂⟩ := ih rfl
      exact ⟨m, l, .up h₁, h₂⟩
  | @down n m loc loc' step rest hd hu hl he h ih =>
    rcases List.append_eq_cons_iff.1 hs with ⟨rfl, rfl⟩ | ⟨a', rfl, rfl⟩
    · exact ⟨_, _, .here, .down hd hu hl he h⟩
    · obtain ⟨m, l, h₁, h₂⟩ := ih rfl
      exact ⟨m, l, .down hd hu hl he h₁, h₂⟩
  | @across n m loc loc' step rest target hd hu hl he h ih =>
    rcases List.append_eq_cons_iff.1 hs with ⟨rfl, rfl⟩ | ⟨a', rfl, rfl⟩
    · exact ⟨_, _, .here, .across hd hu hl he h⟩
    · obtain ⟨m, l, h₁, h₂⟩ := ih (a := target.steps ++ a') (List.append_assoc ..)
      exact ⟨m, l, .across hd hu hl he h₁, h₂⟩

theorem grows (h : t.Leads n loc a m loc') (hg : t.Grows u) : u.Leads n loc a m loc' := by
  induction h with
  | here => exact .here
  | stay _ ih => exact .stay ih
  | up _ ih => exact .up ih
  | down hd hu hl he _ ih => exact .down hd hu hl (hg.directory he) ih
  | across hd hu hl he _ ih => exact .across hd hu hl (hg.link he) ih

theorem dots {rest : List Bytes} (ha : ∀ step ∈ a, ¬(step ≠ [dot]))
    (h : t.Leads n loc rest m loc') : t.Leads n loc (a ++ rest) m loc' := by
  induction a with
  | nil => exact h
  | cons step a ih =>
    obtain rfl : step = [dot] := Decidable.not_not.1 (ha step (List.mem_cons_self ..))
    exact .stay (ih fun s hs => ha s (List.mem_cons_of_mem _ hs))

/-- Steps that differ in `.` alone lead to the same place. -/
theorem of_filter_dot (h : t.Leads n loc a m loc')
    (hb : b.filter (· ≠ [dot]) = a.filter (· ≠ [dot])) : t.Leads n loc b m loc' := by
  induction h generalizing b with
  | here =>
    have hdots : ∀ step ∈ b, ¬(step ≠ [dot]) := by
      simpa only [List.filter_nil, List.filter_eq_nil_iff, decide_eq_true_eq] using hb
    simpa only [List.append_nil] using dots hdots .here
  | stay _ ih => exact ih (by simpa using hb)
  | up _ ih =>
    rw [List.filter_cons_of_pos (by decide), List.filter_eq_cons_iff] at hb
    obtain ⟨a, b', rfl, ha, -, hb'⟩ := hb
    exact dots (by simpa using ha) (.up (ih hb'))
  | down hd hu hl he _ ih =>
    rw [List.filter_cons_of_pos (by simpa using hd), List.filter_eq_cons_iff] at hb
    obtain ⟨a, b', rfl, ha, -, hb'⟩ := hb
    exact dots (by simpa using ha) (.down hd hu hl he (ih hb'))
  | across hd hu hl he _ ih =>
    rw [List.filter_cons_of_pos (by simpa using hd), List.filter_eq_cons_iff] at hb
    obtain ⟨a, b', rfl, ha, -, hb'⟩ := hb
    refine dots (by simpa using ha) (.across hd hu hl he (ih ?_))
    rw [List.filter_append, List.filter_append, hb']

end Leads

/-- The first step of a lookup that succeeds, when it is not the last one. -/
theorem follow_cons_ok {t : FileTree} {final : Bool} {n : Nat} {loc : Location} {step : Bytes}
    {rest : List Bytes} {place : Place} (hr : rest ≠ [])
    (h : t.follow final n loc (step :: rest) = .ok place) :
    (step = [dot] ∧ t.follow final n loc rest = .ok place) ∨
    (step = [dot, dot] ∧ t.follow final n loc.dropLast rest = .ok place) ∨
    (step ≠ [dot] ∧ step ≠ [dot, dot] ∧ step.length ≤ maxName ∧
      (t.at? (loc ++ [step]) = some .directory ∧
          t.follow final n (loc ++ [step]) rest = .ok place ∨
        ∃ target, t.at? (loc ++ [step]) = some (.link target) ∧
          t.beyond final n (if target.isAbsolute then [] else loc) (target.steps ++ rest) =
            .ok place)) := by
  by_cases hd : step = [dot]
  · subst hd
    exact .inl ⟨rfl, by rwa [follow_dot] at h⟩
  by_cases hu : step = [dot, dot]
  · subst hu
    exact .inr (.inl ⟨rfl, by rwa [follow_up] at h⟩)
  by_cases hl : step.length ≤ maxName
  · rw [follow_name hd hu hl] at h
    refine .inr (.inr ⟨hd, hu, hl, ?_⟩)
    cases he : t.at? (loc ++ [step]) with
    | none => simp only [he, if_neg hr] at h; cases h
    | some e =>
      cases e with
      | directory => exact .inl ⟨rfl, by simpa only [he] using h⟩
      | file content => simp only [he, if_neg hr] at h; cases h
      | link target =>
        simp only [he, if_neg fun h : _ ∧ _ => hr h.1] at h
        exact .inr ⟨target, rfl, h⟩
  · rw [follow_long hd hu (Nat.lt_of_not_le hl)] at h; cases h

/-- A lookup that succeeds has followed all its steps but the last ones by the rules. -/
theorem leads_of_follow {t : FileTree} {final : Bool} {n : Nat} {loc : Location} {a b : List Bytes}
    {place : Place} (hb : b ≠ []) (h : t.follow final n loc (a ++ b) = .ok place) :
    ∃ m loc', t.Leads n loc a m loc' := by
  -- on the links left and, for each number of them, on the steps: a link lengthens the steps
  induction n using Nat.strongRecOn generalizing loc a with
  | ind n ihn =>
    induction a generalizing loc with
    | nil => exact ⟨_, _, .here⟩
    | cons step rest ih =>
      rcases follow_cons_ok (List.append_ne_nil_of_right_ne_nil _ hb) h with
        ⟨rfl, hn⟩ | ⟨rfl, hn⟩ | ⟨hd, hu, hl, ⟨he, hn⟩ | ⟨target, he, hn⟩⟩
      · obtain ⟨m, l, hs⟩ := ih hn
        exact ⟨m, l, .stay hs⟩
      · obtain ⟨m, l, hs⟩ := ih hn
        exact ⟨m, l, .up hs⟩
      · obtain ⟨m, l, hs⟩ := ih hn
        exact ⟨m, l, .down hd hu hl he hs⟩
      · cases n with
        | zero => cases hn
        | succ n =>
          rw [← List.append_assoc] at hn
          obtain ⟨m, l, hs⟩ := ihn n (Nat.lt_succ_self n) hn
          exact ⟨m, l, .across hd hu hl he hs⟩

/-- A whole lookup in the form of rules, from `loc` with `n` links left to where it ends. -/
inductive Finds (t : FileTree) (final : Bool) : Nat → Location → List Bytes → Place → Prop
  | here {n : Nat} {loc : Location} : Finds t final n loc [] (.present loc)
  | stay {n : Nat} {loc : Location} {rest : List Bytes} {place : Place} :
      Finds t final n loc rest place → Finds t final n loc ([dot] :: rest) place
  | up {n : Nat} {loc : Location} {rest : List Bytes} {place : Place} :
      Finds t final n loc.dropLast rest place → Finds t final n loc ([dot, dot] :: rest) place
  | down {n : Nat} {loc : Location} {step : Bytes} {rest : List Bytes} {place : Place} :
      step ≠ [dot] → step ≠ [dot, dot] → step.length ≤ maxName →
      t.at? (loc ++ [step]) = some .directory → Finds t final n (loc ++ [step]) rest place →
      Finds t final n loc (step :: rest) place
  | missing {n : Nat} {loc : Location} {step : Bytes} :
      step ≠ [dot] → step ≠ [dot, dot] → step.length ≤ maxName →
      t.at? (loc ++ [step]) = none → Finds t final n loc [step] (.absent loc step)
  | file {n : Nat} {loc : Location} {step : Bytes} {content : ByteArray} :
      step ≠ [dot] → step ≠ [dot, dot] → step.length ≤ maxName →
      t.at? (loc ++ [step]) = some (.file content) →
      Finds t final n loc [step] (.present (loc ++ [step]))
  | link {n : Nat} {loc : Location} {step : Bytes} {target : Path} :
      step ≠ [dot] → step ≠ [dot, dot] → step.length ≤ maxName →
      t.at? (loc ++ [step]) = some (.link target) → final = false →
      Finds t final n loc [step] (.present (loc ++ [step]))
  | across {n : Nat} {loc : Location} {step : Bytes} {rest : List Bytes} {target : Path}
      {place : Place} :
      step ≠ [dot] → step ≠ [dot, dot] → step.length ≤ maxName →
      t.at? (loc ++ [step]) = some (.link target) → ¬(rest = [] ∧ final = false) →
      Finds t final n (if target.isAbsolute then [] else loc) (target.steps ++ rest) place →
      Finds t final (n + 1) loc (step :: rest) place

/-- A lookup that succeeds goes by the rules. -/
theorem finds_of_follow {t : FileTree} {final : Bool} {n : Nat} {loc : Location}
    {steps : List Bytes} {place : Place} (h : t.follow final n loc steps = .ok place) :
    t.Finds final n loc steps place := by
  induction n using Nat.strongRecOn generalizing loc steps with
  | ind n ihn =>
    induction steps generalizing loc with
    | nil =>
      rw [follow_nil] at h
      cases h
      exact .here
    | cons step rest ih =>
      by_cases hd : step = [dot]
      · subst hd
        rw [follow_dot] at h
        exact .stay (ih h)
      by_cases hu : step = [dot, dot]
      · subst hu
        rw [follow_up] at h
        exact .up (ih h)
      by_cases hl : step.length ≤ maxName
      · rw [follow_name hd hu hl] at h
        cases he : t.at? (loc ++ [step]) with
        | none =>
          simp only [he] at h
          split at h <;> cases h
          subst rest
          exact .missing hd hu hl he
        | some e =>
          cases e with
          | directory =>
            simp only [he] at h
            exact .down hd hu hl he (ih h)
          | file content =>
            simp only [he] at h
            split at h <;> cases h
            subst rest
            exact .file hd hu hl he
          | link target =>
            simp only [he] at h
            split at h
            · obtain ⟨rfl, hf⟩ := ‹rest = [] ∧ final = false›
              cases h
              exact .link hd hu hl he hf
            · cases n with
              | zero => cases h
              | succ n => exact .across hd hu hl he ‹_› (ihn n (Nat.lt_succ_self n) h)
      · rw [follow_long hd hu (Nat.lt_of_not_le hl)] at h
        cases h

theorem Finds.follow_eq {t : FileTree} {final : Bool} {n : Nat} {loc : Location}
    {steps : List Bytes} {place : Place} (h : t.Finds final n loc steps place) :
    t.follow final n loc steps = .ok place := by
  induction h with
  | here => exact follow_nil ..
  | stay _ ih => rw [follow_dot, ih]
  | up _ ih => rw [follow_up, ih]
  | down hd hu hl he _ ih => rw [follow_down hd hu hl he, ih]
  | missing hd hu hl he => rw [follow_name hd hu hl, he]; rfl
  | file hd hu hl he => rw [follow_name hd hu hl, he]; rfl
  | link hd hu hl he hf =>
    rw [follow_name hd hu hl, he]
    exact if_pos ⟨rfl, hf⟩
  | across hd hu hl he hr _ ih =>
    rw [follow_name hd hu hl, he]
    exact (if_neg hr).trans ih

/-- A lookup that ends at a directory has followed all its steps by the rules. -/
theorem Finds.leads {t : FileTree} {n : Nat} {loc d : Location} {steps : List Bytes}
    (h : t.Finds true n loc steps (.present d))
    (hd : t.at? d = some .directory) : ∃ m, t.Leads n loc steps m d := by
  generalize hplace : Place.present d = place at h
  induction h with
  | here =>
    cases hplace
    exact ⟨_, .here⟩
  | stay _ ih =>
    obtain ⟨m, hl⟩ := ih hplace
    exact ⟨m, .stay hl⟩
  | up _ ih =>
    obtain ⟨m, hl⟩ := ih hplace
    exact ⟨m, .up hl⟩
  | down hdot hup hlen he _ ih =>
    obtain ⟨m, hl⟩ := ih hplace
    exact ⟨m, .down hdot hup hlen he hl⟩
  | missing => cases hplace
  | file _ _ _ he =>
    cases hplace
    rw [hd] at he
    cases he
  | link _ _ _ _ hfinal => cases hfinal
  | across hdot hup hlen he _ _ ih =>
    obtain ⟨m, hl⟩ := ih hplace
    exact ⟨m, .across hdot hup hlen he hl⟩

/-- A lookup that ends at a name a directory does not hold has that name as its last step. -/
theorem leads_of_absent {t : FileTree} {n : Nat} {loc directory : Location} {steps : List Bytes}
    {name : Bytes} (h : t.follow false n loc steps = .ok (.absent directory name)) :
    ∃ above m, steps = above ++ [name] ∧ t.Leads n loc above m directory ∧
      name ≠ [dot] ∧ name ≠ [dot, dot] ∧ name.length ≤ maxName := by
  rcases List.eq_nil_or_concat steps with rfl | ⟨above, last, rfl⟩
  · rw [follow_nil] at h; cases h
  rw [List.concat_eq_append] at h ⊢
  obtain ⟨m, loc', hs⟩ := leads_of_follow (List.cons_ne_nil _ _) h
  rw [hs.follow_append _ (List.cons_ne_nil _ _)] at h
  by_cases hd : last = [dot]
  · rw [hd, follow_dot, follow_nil] at h; cases h
  by_cases hu : last = [dot, dot]
  · rw [hu, follow_up, follow_nil] at h; cases h
  by_cases hl : last.length ≤ maxName
  · rw [follow_name hd hu hl] at h
    cases he : t.at? (loc' ++ [last]) with
    | none =>
      simp only [he, if_pos, Except.ok.injEq, Place.absent.injEq] at h
      obtain ⟨rfl, rfl⟩ := h
      exact ⟨above, m, rfl, hs, hd, hu, hl⟩
    | some e =>
      cases e with
      | directory => simp only [he, follow_nil] at h; cases h
      | file content => simp only [he, if_pos] at h; cases h
      | link target => simp only [he, and_self, if_pos] at h; cases h
  · rw [follow_long hd hu (Nat.lt_of_not_le hl)] at h; cases h

end BillOfMaterials.FileTree
