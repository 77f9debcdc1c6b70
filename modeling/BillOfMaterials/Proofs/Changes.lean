import BillOfMaterials.Proofs.Following
import BillOfMaterials.Proofs.Pieces

/-!
# What a change does

One statement for each operation that changes a tree: what it found, and what it put where. A
directory is only ever made where nothing stood, a file only where nothing or a file stood. So every
operation makes the tree grow, whether it succeeds or not.
-/
namespace BillOfMaterials.FileTree

open BillOfMaterials.Path (dot named)

variable {t t' : FileTree} {p : Path}

theorem Grows.start_eq {u : FileTree} (h : t.Grows u) (p : Path) : u.start p = t.start p := by
  rw [FileTree.start, FileTree.start, h.start]

/-- A lookup that ends at a missing name ends where nothing stands. -/
theorem at?_of_absent {final : Bool} {n : Nat} {loc directory : Location} {steps : List Bytes}
    {name : Bytes} (h : t.follow final n loc steps = .ok (.absent directory name)) :
    t.at? (directory ++ [name]) = none := by
  replace h := finds_of_follow h
  generalize hplace : Place.absent directory name = place at h
  induction h with
  | here => cases hplace
  | stay _ ih => exact ih hplace
  | up _ ih => exact ih hplace
  | down _ _ _ _ _ ih => exact ih hplace
  | missing _ _ _ he =>
    cases hplace
    exact he
  | file => cases hplace
  | link => cases hplace
  | across _ _ _ _ _ _ ih => exact ih hplace

/-- Making a directory with its checks written one after the other. -/
theorem makeDirectory_eq (t : FileTree) (p : Path) :
    t.makeDirectory p =
      if p.spelling = [] then .error .notFound
      else if isUsable p = false then .error .badName
      else
        match p.named.getLast? with
        | none => .error .alreadyExists
        | some name =>
          match t.follow true maxLinks (t.start p) (p.named.dropLast ++ [[dot]]) with
          | .error e => .error e
          | .ok (.absent _ _) => .error .notFound
          | .ok (.present parent) =>
            if name = [dot] ∨ name = [dot, dot] then .error .alreadyExists
            else if maxName < name.length then .error .badName
            else
              match t.at? (parent ++ [name]) with
              | some _ => .error .alreadyExists
              | none => .ok (t.put (parent ++ [name]) .directory) := by
  unfold makeDirectory
  by_cases he : p.spelling = []
  · rw [if_pos he, if_pos he]; rfl
  by_cases hu : isUsable p = false
  · rw [if_neg he, if_neg he, if_pos hu, hu]; rfl
  have hu' : isUsable p = true := by simpa using hu
  rw [if_neg he, if_neg he, if_neg hu]
  simp only [hu', Bool.not_true, Bool.false_eq_true, ↓reduceIte, bind, Except.bind, throw, throwThe,
    MonadExceptOf.throw, pure, Except.pure, named]
  cases (p.pieces.filter (· ≠ [])).getLast? with
  | none => rfl
  | some name =>
    dsimp only
    cases t.follow true maxLinks (t.start p) ((p.pieces.filter (· ≠ [])).dropLast ++ [[dot]]) with
    | error e => rfl
    | ok place => cases place <;> rfl

/-- A directory that was made stands under the last piece of its path, in the directory that the
pieces before lead to. -/
theorem makeDirectory_ok (h : t.makeDirectory p = .ok t') :
    ∃ above name m parent, p.named = above ++ [name] ∧
      t.Leads maxLinks (t.start p) above m parent ∧
      (name ≠ [dot] ∧ name ≠ [dot, dot] ∧ name.length ≤ maxName) ∧
      t.at? (parent ++ [name]) = none ∧ t' = t.put (parent ++ [name]) .directory := by
  rw [makeDirectory_eq] at h
  split at h
  · cases h
  split at h
  · cases h
  cases hn : p.named.getLast? with
  | none => rw [hn] at h; cases h
  | some name =>
    obtain ⟨above, ha⟩ := List.getLast?_eq_some_iff.1 hn
    rw [hn, ha, List.dropLast_concat] at h
    cases hf : t.follow true maxLinks (t.start p) (above ++ [[dot]]) with
    | error e => rw [hf] at h; cases h
    | ok place =>
      obtain ⟨m, parent, hl⟩ := leads_of_follow (List.cons_ne_nil _ _) hf
      rw [hl.follow_to true] at h
      dsimp only at h
      by_cases hd : name = [dot] ∨ name = [dot, dot]
      · rw [if_pos hd] at h
        cases h
      by_cases hlen : maxName < name.length
      · rw [if_neg hd, if_pos hlen] at h
        cases h
      rw [if_neg hd, if_neg hlen] at h
      cases he : t.at? (parent ++ [name]) with
      | some e => rw [he] at h; cases h
      | none =>
        rw [he] at h
        cases h
        obtain ⟨hd, hu⟩ := not_or.1 hd
        exact ⟨above, name, m, parent, ha, hl, ⟨hd, hu, Nat.le_of_not_lt hlen⟩, he, rfl⟩

theorem Grows.of_makeDirectory (h : t.makeDirectory p = .ok t') : t.Grows t' := by
  obtain ⟨above, name, m, parent, -, -, -, hnone, rfl⟩ := makeDirectory_ok h
  exact .put_new hnone

theorem makeDirectory_of_leads {m : Nat} {loc : Location}
    (h : t.Leads maxLinks (t.start p) p.named m loc) (hne : p.named ≠ [])
    (hu : isUsable p = true) : t.makeDirectory p = .error .alreadyExists := by
  have hs := Path.ne_nil_of_named hne
  rw [makeDirectory_eq, if_neg hs, if_neg (by simp [hu])]
  obtain ⟨above, name, hn⟩ := (List.eq_nil_or_concat p.named).resolve_left hne
  rw [List.concat_eq_append] at hn
  rw [hn] at h
  obtain ⟨m', parent, ha, hl⟩ := h.split
  rw [hn, List.getLast?_concat, List.dropLast_concat, ha.follow_to true]
  dsimp only
  cases hl with
  | stay _ => exact if_pos (.inl rfl)
  | up _ => exact if_pos (.inr rfl)
  | down hd hup hlen he _ =>
    rw [if_neg (not_or.2 ⟨hd, hup⟩), if_neg (Nat.not_lt.2 hlen), he]
  | across hd hup hlen he _ =>
    rw [if_neg (not_or.2 ⟨hd, hup⟩), if_neg (Nat.not_lt.2 hlen), he]

/-- No directory can be made where the path of one already leads, and nothing is missing above. -/
theorem makeDirectory_standing {m : Nat} {loc : Location}
    (h : t.Leads maxLinks (t.start p) p.named m loc) (hne : p.named ≠ []) :
    ∃ e, t.makeDirectory p = .error e ∧ e ≠ .notFound := by
  have hs := Path.ne_nil_of_named hne
  by_cases hu : isUsable p = true
  · exact ⟨.alreadyExists, makeDirectory_of_leads h hne hu, by decide⟩
  · refine ⟨.badName, ?_, by decide⟩
    rw [makeDirectory_eq, if_neg hs, if_pos (by simpa using hu)]

/-- Makes one directory; one that stands there already will do. -/
def tryDirectory (t : FileTree) (p : Path) : FileTree × Except FileError Unit :=
  match t.makeDirectory p with
  | .ok made => (made, .ok ())
  | .error e => if e = .alreadyExists ∧ t.isDirectory p then (t, .ok ()) else (t, .error e)

theorem makeAll_of_missing {above : List Path} (h : t.makeDirectory p = .error .notFound) :
    t.makeAll (p :: above) =
      match (t.makeAll above).2 with
      | .error e => ((t.makeAll above).1, .error e)
      | .ok () => (t.makeAll above).1.tryDirectory p := by
  rw [makeAll, h]
  dsimp only
  generalize t.makeAll above = made
  obtain ⟨u, outcome⟩ := made
  cases outcome <;> rfl

theorem makeAll_of_found {above : List Path} (h : t.makeDirectory p ≠ .error .notFound) :
    t.makeAll (p :: above) = t.tryDirectory p := by
  rw [makeAll, tryDirectory]
  cases hm : t.makeDirectory p with
  | ok made => rfl
  | error e =>
    rw [hm] at h
    cases e <;> first | rfl | exact absurd rfl h

/-- What making each directory preserves holds after making them all, also where that fails on the
way. -/
theorem makeAll_preserves {P : FileTree → Prop} {paths : List Path}
    (step : ∀ u u' : FileTree, ∀ p ∈ paths, P u → u.makeDirectory p = .ok u' → P u') (h : P t) :
    P (t.makeAll paths).1 := by
  induction paths with
  | nil => exact h
  | cons p above ih =>
    have hlast : ∀ u u' : FileTree, P u → u.makeDirectory p = .ok u' → P u' :=
      fun u u' => step u u' p List.mem_cons_self
    have habove : P (t.makeAll above).1 :=
      ih fun u u' x hx => step u u' x (List.mem_cons_of_mem _ hx)
    unfold makeAll
    cases hm : t.makeDirectory p with
    | ok made => exact hlast t made h hm
    | error e =>
      by_cases hn : e = .notFound
      · subst hn
        dsimp only
        cases hr : t.makeAll above with
        | mk u outcome =>
          rw [hr] at habove
          cases outcome with
          | error e => exact habove
          | ok _ =>
            dsimp only
            cases hu : u.makeDirectory p with
            | ok made => exact hlast u made habove hu
            | error e => dsimp only; split <;> exact habove
      · cases e <;> first | exact absurd rfl hn | (dsimp only; split <;> exact h)

/-- A file that was written stands where its path led to nothing, or in place of the file there. -/
theorem write_ok {content : ByteArray} (h : t.write p content = .ok t') :
    (∃ directory name, t.locate true p = .ok (.absent directory name) ∧
      t' = t.put (directory ++ [name]) (.file content)) ∨
    (∃ loc old, t.locate true p = .ok (.present loc) ∧ t.at? loc = some (.file old) ∧
      t' = t.put loc (.file content)) := by
  unfold write at h
  simp only [bind, Except.bind, throw, throwThe, MonadExceptOf.throw, pure, Except.pure] at h
  cases hp : t.locate true p with
  | error e => rw [hp] at h; cases h
  | ok place =>
    rw [hp] at h
    cases place with
    | absent directory name =>
      cases h
      exact .inl ⟨directory, name, rfl, rfl⟩
    | present loc =>
      dsimp only at h
      cases he : t.at? loc with
      | none => rw [he] at h; cases h
      | some e =>
        rw [he] at h
        cases e with
        | file old =>
          cases h
          exact .inr ⟨loc, old, rfl, he, rfl⟩
        | directory => cases h
        | link target => cases h

/-- A path that can be looked up is followed from where it starts. -/
theorem locate_ok {final : Bool} {place : Place} (h : t.locate final p = .ok place) :
    p.spelling ≠ [] ∧ isUsable p = true ∧
      t.follow final maxLinks (t.start p) p.steps = .ok place := by
  unfold locate at h
  by_cases hs : p.spelling = []
  · rw [if_pos hs] at h; cases h
  by_cases hu : isUsable p = true
  · rw [if_neg hs, if_neg (by simp [hu])] at h
    exact ⟨hs, hu, h⟩
  · rw [if_neg hs, if_pos (by simpa using hu)] at h; cases h

theorem directory?_eq_some {loc : Location} (h : t.directory? p = some loc) :
    t.locate true p = .ok (.present loc) ∧ t.at? loc = some .directory := by
  unfold directory? at h
  split at h
  · rename_i found he
    cases h
    unfold entry? at he
    split at he
    · rename_i place hl
      obtain ⟨e, hat, hfound⟩ := Option.map_eq_some_iff.1 he
      cases hfound
      exact ⟨hl, hat⟩
    · cases he
  · cases h

/-- The pieces of a path to a directory lead there, and further steps go on from there. -/
theorem leads_of_directory? {loc : Location} (h : t.directory? p = some loc) :
    ∃ m, t.Leads maxLinks (t.start p) p.named m loc := by
  obtain ⟨hl, hat⟩ := directory?_eq_some h
  obtain ⟨-, -, hf⟩ := locate_ok hl
  obtain ⟨m, hsteps⟩ := (finds_of_follow hf).leads hat
  exact ⟨m, hsteps.of_filter_dot (Path.filter_steps p).symm⟩

/-- Nothing is made where the first directory stands already. -/
theorem makeAll_standing (h : t.isDirectory p = true) (hne : p.named ≠ []) (above : List Path) :
    t.makeAll (p :: above) = (t, .ok ()) := by
  obtain ⟨loc, hd⟩ := Option.isSome_iff_exists.1 h
  obtain ⟨m, hleads⟩ := leads_of_directory? hd
  have hu := (locate_ok (directory?_eq_some hd).1).2.1
  have hexists := makeDirectory_of_leads hleads hne hu
  rw [makeAll_of_found (by rw [hexists]; nofun), tryDirectory, hexists]
  exact if_pos ⟨rfl, h⟩

theorem usable_of_makeAll {above : List Path} (hne : p.spelling ≠ [])
    (h : (t.makeAll (p :: above)).2 = .ok ()) : isUsable p = true := by
  by_contra hu
  have hm : t.makeDirectory p = .error .badName := by
    rw [makeDirectory_eq, if_neg hne, if_pos (by simpa using hu)]
  rw [makeAll_of_found (by rw [hm]; nofun), tryDirectory, hm] at h
  cases h

/-- No file is written where a directory stands. -/
theorem write_standing (h : t.isDirectory p = true) (content : ByteArray) :
    t.write p content = .error .isDirectory := by
  obtain ⟨loc, hd⟩ := Option.isSome_iff_exists.1 h
  obtain ⟨hl, hat⟩ := directory?_eq_some hd
  unfold write
  simp only [hl, bind, Except.bind, hat]
  rfl

/-- The directories that a file lies in, the nearest first. -/
def enclosing (p : Path) : List Path := (p.parent?.map ancestors).getD []

theorem writeWithDirectories_eq (t : FileTree) (p : Path) (content : ByteArray) :
    t.writeWithDirectories p content =
      match t.makeAll (enclosing p) with
      | (v, .ok ()) => writeWithDirectories.finish p content v
      | (v, .error e) => (v, .error e) := by
  unfold writeWithDirectories enclosing
  cases p.parent? with
  | none => rfl
  | some parent => rfl

theorem usable_of_write {content : ByteArray} (h : t.write p content = .ok t') :
    isUsable p = true := by
  rcases write_ok h with ⟨directory, name, hl, -⟩ | ⟨loc, old, hl, -⟩
  · exact (locate_ok hl).2.1
  · exact (locate_ok hl).2.1

/-- A file is written after the directories that it lies in have been made, unless one of the two
fails; a write that fails leaves the directories. -/
theorem writeWithDirectories_cases (t : FileTree) (p : Path) (content : ByteArray) :
    (∃ e, t.writeWithDirectories p content = ((t.makeAll (enclosing p)).1, .error e)) ∨
      ∃ u, (t.makeAll (enclosing p)).1.write p content = .ok u ∧
        t.writeWithDirectories p content = (u, .ok ()) := by
  rw [writeWithDirectories_eq]
  cases t.makeAll (enclosing p) with
  | mk v outcome =>
    cases outcome with
    | error e => exact .inl ⟨e, rfl⟩
    | ok _ =>
      dsimp only
      unfold writeWithDirectories.finish
      cases v.write p content with
      | error e => exact .inl ⟨e, rfl⟩
      | ok u => exact .inr ⟨u, rfl, rfl⟩

theorem writeWithDirectories_ok {content : ByteArray}
    (h : t.writeWithDirectories p content = (t', .ok ())) :
    (t.makeAll (enclosing p)).1.write p content = .ok t' := by
  rcases writeWithDirectories_cases t p content with ⟨e, he⟩ | ⟨u, hw, he⟩
  · rw [he] at h
    cases h
  · rw [he] at h
    cases h
    exact hw

theorem writeWithDirectories_error {content : ByteArray} {e : FileError}
    (h : t.writeWithDirectories p content = (t', .error e)) : t' = (t.makeAll (enclosing p)).1 := by
  rcases writeWithDirectories_cases t p content with ⟨e, he⟩ | ⟨u, hw, he⟩
  · rw [he] at h
    cases h
    rfl
  · rw [he] at h
    cases h

/-- What making each directory preserves, and writing the file, holds after both, also where one of
them fails. -/
theorem writeWithDirectories_preserves {P : FileTree → Prop} {content : ByteArray}
    (directory : ∀ u u' : FileTree, ∀ x ∈ enclosing p, P u → u.makeDirectory x = .ok u' → P u')
    (file : ∀ u u' : FileTree, P u → u.write p content = .ok u' → P u') (h : P t) :
    P (t.writeWithDirectories p content).1 := by
  have hmade : P (t.makeAll (enclosing p)).1 := makeAll_preserves directory h
  rcases writeWithDirectories_cases t p content with ⟨e, he⟩ | ⟨u, hw, he⟩
  · rw [he]
    exact hmade
  · rw [he]
    exact file _ u hmade hw

theorem Grows.of_write {content : ByteArray} (h : t.write p content = .ok t') : t.Grows t' := by
  rcases write_ok h with ⟨directory, name, hp, rfl⟩ | ⟨loc, old, -, he, rfl⟩
  · exact .put_new (at?_of_absent (locate_ok hp).2.2)
  · exact .put_file he

/-! ## One change made to two trees -/

/-- A change fails alike on two trees, or it leaves trees that are related as `R` says. -/
def SameChange (R : FileTree → FileTree → Prop) (r r' : Except FileError FileTree) : Prop :=
  (∃ e, r = .error e ∧ r' = .error e) ∨ ∃ v w, r = .ok v ∧ r' = .ok w ∧ R v w

/-- Results of the same work on two trees: one answer, and trees that are related as `R` says. -/
structure SameResult {α : Type} (R : FileTree → FileTree → Prop) (x y : FileTree × α) : Prop where
  tree : R x.1 y.1
  answer : y.2 = x.2

theorem SameResult.parts {α : Type} {R : FileTree → FileTree → Prop} {x y : FileTree × α}
    (h : SameResult R x y) : ∃ t u answer, x = (t, answer) ∧ y = (u, answer) ∧ R t u :=
  ⟨x.1, y.1, x.2, rfl, by rw [← h.answer], h.tree⟩

section Related

variable {R : FileTree → FileTree → Prop} {u : FileTree} {p' : Path} {above above' : List Path}
  {content : ByteArray}

theorem SameChange.tryDirectory (hm : SameChange R (t.makeDirectory p) (u.makeDirectory p'))
    (h : R t u) (hd : u.isDirectory p' = t.isDirectory p) :
    SameResult R (t.tryDirectory p) (u.tryDirectory p') := by
  unfold FileTree.tryDirectory
  rcases hm with ⟨e, ht, hu⟩ | ⟨v, w, ht, hu, hv⟩
  · rw [ht, hu, hd]
    dsimp only
    split <;> exact ⟨h, rfl⟩
  · rw [ht, hu]
    exact ⟨hv, rfl⟩

/-- Whether the directories above have to be made shows in both trees alike. -/
theorem SameChange.makeAll (hm : SameChange R (t.makeDirectory p) (u.makeDirectory p')) (h : R t u)
    (hlast : ∀ {v w : FileTree}, R v w → SameResult R (v.tryDirectory p) (w.tryDirectory p'))
    (habove : SameResult R (t.makeAll above) (u.makeAll above')) :
    SameResult R (t.makeAll (p :: above)) (u.makeAll (p' :: above')) := by
  by_cases hmissing : t.makeDirectory p = .error .notFound
  · have hmissing' : u.makeDirectory p' = .error .notFound := by
      rcases hm with ⟨e, ht, hu⟩ | ⟨v, w, ht, -⟩
      · rw [hu, ← ht, hmissing]
      · rw [ht] at hmissing
        cases hmissing
    rw [makeAll_of_missing hmissing, makeAll_of_missing hmissing', habove.answer]
    cases (t.makeAll above).2 with
    | error e => exact ⟨habove.tree, rfl⟩
    | ok _ => exact hlast habove.tree
  · have hmissing' : u.makeDirectory p' ≠ .error .notFound := by
      rcases hm with ⟨e, ht, hu⟩ | ⟨v, w, -, hu, -⟩
      · rwa [hu, ← ht]
      · rw [hu]
        exact nofun
    rw [makeAll_of_found hmissing, makeAll_of_found hmissing']
    exact hlast h

theorem SameResult.writeWithDirectories
    (hmade : SameResult R (t.makeAll (enclosing p)) (u.makeAll (enclosing p')))
    (hwrite : ∀ {v w : FileTree}, R v w → SameChange R (v.write p content) (w.write p' content)) :
    SameResult R (t.writeWithDirectories p content) (u.writeWithDirectories p' content) := by
  obtain ⟨v, w, outcome, ht, hu, hv⟩ := hmade.parts
  rw [writeWithDirectories_eq, writeWithDirectories_eq, ht, hu]
  cases outcome with
  | error e => exact ⟨hv, rfl⟩
  | ok _ =>
    dsimp only
    unfold writeWithDirectories.finish
    rcases hwrite hv with ⟨e, ht, hu⟩ | ⟨v', w', ht, hu, h'⟩
    · rw [ht, hu]
      exact ⟨hv, rfl⟩
    · rw [ht, hu]
      exact ⟨h', rfl⟩

end Related

end BillOfMaterials.FileTree
