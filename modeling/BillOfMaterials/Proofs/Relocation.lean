import BillOfMaterials.Proofs.Mirroring
import BillOfMaterials.Proofs.Spellings
import BillOfMaterials.Proofs.Temporary
import BillOfMaterials.Proofs.Writing
import Mathlib.Data.List.Induction

/-!
# Unpacking at another place

Unpacking looks at nothing outside of the directory that it is given, and at that directory only by
what lies below it. So at another empty place it does the same: it unpacks the same files, and what
lies below one place afterwards lies below the other. Only the length of the paths can make a
difference, so the other place must not have a longer path. Nothing is said of an archive that
cannot be unpacked at the first place.
-/
namespace BillOfMaterials

open BillOfMaterials.Path (dot named)

namespace FileTree

variable {t u : FileTree} {d d' loc : Location} {p p' q x : Path} {b : List Bytes}

/-! ## The directories on the way to a path -/

/-- The paths that components begin with, the longest first. The root, and the empty path, are no
part of it. -/
def descents (cs : List Path.Component) : List Path :=
  (((List.range (cs.length + 1)).reverse.map cs.take).filter fun b =>
    decide (b ≠ [] ∧ b ≠ [.root])).map Path.ofComponents

theorem takes_concat (cs : List Path.Component) (c : Path.Component) :
    (List.range (cs.length + 1)).reverse.map (cs ++ [c]).take =
      (List.range (cs.length + 1)).reverse.map cs.take := by
  refine List.map_congr_left fun k hk => ?_
  have hle : k ≤ cs.length := Nat.lt_succ_iff.1 (List.mem_range.1 (List.mem_reverse.1 hk))
  exact List.take_append_of_le_length hle

section Descents

variable {cs : List Path.Component} {c : Path.Component} (h : cs ++ [c] ≠ [.root])

include h

theorem descents_concat :
    descents (cs ++ [c]) = Path.ofComponents (cs ++ [c]) :: descents cs := by
  have hproper : cs ++ [c] ≠ [] ∧ cs ++ [c] ≠ [.root] := ⟨by simp, h⟩
  have hwhole : (cs ++ [c]).take (cs.length + 1) = cs ++ [c] := List.take_of_length_le (by simp)
  unfold descents
  rw [List.length_append, List.length_singleton, List.range_succ, List.reverse_append,
    List.reverse_singleton, List.singleton_append, List.map_cons, takes_concat, hwhole,
    List.filter_cons, if_pos (decide_eq_true hproper), List.map_cons]

theorem ancestors_eq (hx : x.components = cs ++ [c]) : ancestors x = x :: descents cs := by
  have hproper : x.components ≠ [] ∧ x.components ≠ [.root] := by
    rw [hx]
    exact ⟨by simp, h⟩
  unfold ancestors descents
  dsimp only
  rw [if_pos (decide_eq_true hproper), hx, List.length_append, List.length_singleton, takes_concat]

end Descents

/-- A path that ends in a name, and in no separator after it. -/
structure EndsInName (p : Path) : Prop where
  spelling : p.spelling.getLast? ≠ some Path.slash
  named : p.named.filter (· ≠ [dot]) ≠ []

theorem EndsInName.of_vacancy (h : t.vacancy? p = some loc) : EndsInName p ∧ isUsable p = true := by
  unfold vacancy? at h
  split at h
  · rename_i directory name hf
    obtain ⟨-, hu, hsteps⟩ := locate_ok hf
    obtain ⟨above, m, ha, -, hdot, -, -⟩ := leads_of_absent hsteps
    have hname : p.named.filter (· ≠ [dot]) ≠ [] := by
      rw [← Path.filter_steps, ha, List.filter_append,
        List.filter_cons_of_pos (by simpa using hdot)]
      simp
    have hnamed : p.named ≠ [] := by
      intro hn
      exact hname (by rw [hn]; rfl)
    refine ⟨⟨fun hslash => ?_, hname⟩, hu⟩
    rw [Path.steps_eq, if_pos ⟨hslash, hnamed⟩] at ha
    exact hdot (by simpa using (List.append_inj' ha rfl).2.symm)
  · cases h

namespace EndsInName

variable (hp : EndsInName p)

include hp

theorem named_ne_nil : p.named ≠ [] := by
  intro hn
  exact hp.named (by rw [hn]; rfl)

theorem spelling_ne_nil : p.spelling ≠ [] := Path.ne_nil_of_named hp.named_ne_nil

/-- Whatever follows its components, they are more than a root. -/
theorem components_ne (rs : List Path.Component) : p.components ++ rs ≠ [.root] := by
  intro hroot
  have hnamed := hp.named
  rw [← Path.spelled_components] at hnamed
  cases hc : p.components with
  | nil => exact hnamed (by rw [hc]; rfl)
  | cons first rest =>
    rw [hc, List.cons_append, List.cons.injEq, List.append_eq_nil_iff] at hroot
    obtain ⟨rfl, rfl, -⟩ := hroot
    exact hnamed (by rw [hc]; rfl)

theorem components_ne_nil : p.components ≠ [] := by
  intro hnil
  refine hp.named ?_
  rw [← Path.spelled_components, hnil]
  rfl

theorem descents_append (rs : List Path.Component) (c : Path.Component) :
    descents (p.components ++ (rs ++ [c])) =
      .ofComponents (p.components ++ (rs ++ [c])) :: descents (p.components ++ rs) := by
  have hroot := hp.components_ne (rs ++ [c])
  rw [← List.append_assoc] at hroot ⊢
  exact descents_concat hroot

theorem ancestors_append {rs : List Path.Component} {c : Path.Component}
    (hx : x.components = p.components ++ (rs ++ [c])) :
    ancestors x = x :: descents (p.components ++ rs) := by
  have hroot := hp.components_ne (rs ++ [c])
  rw [← List.append_assoc] at hx hroot
  exact ancestors_eq hroot hx

theorem exists_descents : ∃ above, descents p.components = .ofComponents p.components :: above := by
  have hroot := hp.components_ne []
  obtain ⟨cs, c, hcs⟩ := (List.eq_nil_or_concat _).resolve_left hp.components_ne_nil
  rw [List.append_nil, hcs, List.concat_eq_append] at hroot
  rw [hcs, List.concat_eq_append]
  exact ⟨_, descents_concat hroot⟩

theorem exists_ancestors {rs : List Path.Component} (hx : x.components = p.components ++ rs) :
    ∃ above, ancestors x = x :: above := by
  have hne : x.components ≠ [] := by
    rw [hx]
    exact List.append_ne_nil_of_left_ne_nil hp.components_ne_nil _
  obtain ⟨cs, c, hcs⟩ := (List.eq_nil_or_concat _).resolve_left hne
  rw [List.concat_eq_append] at hcs
  exact ⟨_, ancestors_eq (by rw [← hcs, hx]; exact hp.components_ne rs) hcs⟩

end EndsInName

/-- What is asked for after the pieces of a relative path `q` that is looked up below another. -/
def tailOf (q : Path) : List Bytes :=
  if (Path.slash :: q.spelling).getLast? = some Path.slash then [[dot]] else []

theorem filter_tailOf (q : Path) : (tailOf q).filter (· ≠ [dot]) = [] := by
  unfold tailOf
  split <;> rfl

theorem keepsBelow_tailOf (q : Path) (hk : keepsBelow 0 b) : keepsBelow 0 (b ++ tailOf q) := by
  rw [← keepsBelow_filter] at hk ⊢
  rwa [List.filter_append, filter_tailOf, List.append_nil]

section Below

variable (hp : EndsInName p) (hq : q.isAbsolute = false)

include hp hq

theorem spelling_join : (p.join q).spelling = p.spelling ++ Path.slash :: q.spelling := by
  rw [Path.join_eq hq, if_neg (not_or.2 ⟨hp.spelling_ne_nil, hp.spelling⟩)]

theorem steps_below : (p.join q).steps = (p.join q).named ++ tailOf q := by
  have hnamed : (p.join q).named ≠ [] := by
    rw [Path.named_join hq]
    exact List.append_ne_nil_of_left_ne_nil hp.named_ne_nil _
  have hlast : (p.join q).spelling.getLast? = (Path.slash :: q.spelling).getLast? := by
    rw [spelling_join hp hq, List.getLast?_append_of_ne_nil _ (List.cons_ne_nil _ _)]
  rw [Path.steps_eq, hlast, tailOf]
  split
  · rename_i h
    rw [if_pos h.1]
  · rename_i h
    rw [if_neg fun hc => h ⟨hc, hnamed⟩, List.append_nil]

/-- Whether a path below another may be asked for depends on the length of the other. -/
theorem isUsable_join (hp' : EndsInName p') (hu' : isUsable p' = true)
    (hlength : p'.spelling.length ≤ p.spelling.length) (hu : isUsable (p.join q) = true) :
    isUsable (p'.join q) = true := by
  rw [Path.isUsable_iff] at hu hu' ⊢
  rw [spelling_join hp hq] at hu
  rw [spelling_join hp' hq]
  simp only [List.length_append, List.length_cons, List.mem_append, not_or] at hu ⊢
  exact ⟨by omega, hu'.2, hu.2.2⟩

variable (hu : isUsable (p.join q) = true)

include hu

theorem continues_join : Continues p q.named (tailOf q) (p.join q) where
  absolute := Path.isAbsolute_join hq
  named := ⟨p.named, Path.named_join hq, rfl⟩
  steps := steps_below hp hq
  proper := by
    rw [Path.named_join hq]
    exact List.append_ne_nil_of_left_ne_nil hp.named_ne_nil _
  usable := hu

/-- A path that names nothing is looked up where the other leads. -/
theorem continues_join_nil (ho : q.ordinary = []) : Continues p [] (tailOf q) (p.join q) := by
  have hdots : q.named.filter (· ≠ [dot]) = [] := by rw [← Path.map_spelling_ordinary, ho]; rfl
  refine ⟨Path.isAbsolute_join hq, ⟨(p.join q).named, (List.append_nil _).symm, ?_⟩,
    steps_below hp hq, (continues_join hp hq hu).proper, hu⟩
  rw [Path.named_join hq, List.filter_append, hdots, List.append_nil]

theorem continues_beginning {rs : List Path.Component} (hrs : rs <+: q.ordinary) :
    Continues p (rs.map Path.Component.spelling) [] (.ofComponents (p.components ++ rs)) := by
  have hbegins : p.components ++ rs <+: (p.join q).components := by
    rw [Path.components_join hq hp.spelling_ne_nil, List.prefix_append_right_inj]
    exact hrs
  have hbeginning := Path.isBeginning_of_begins hbegins
  have hordinary : ∀ c ∈ rs, c.IsOrdinary := fun c hc => Path.isOrdinary_of_mem (hrs.subset hc)
  have hnamed : (Path.ofComponents (p.components ++ rs)).named =
      Path.spelled p.components ++ rs.map Path.Component.spelling := by
    rw [Path.named_ofComponents hbeginning, Path.spelled_append, Path.spelled_ordinary hordinary]
  have hne : p.components ++ rs ≠ [] := List.append_ne_nil_of_left_ne_nil hp.components_ne_nil _
  refine ⟨?_, ⟨_, hnamed, Path.spelled_components p⟩, ?_,
    Path.named_ofComponents_ne_nil hbeginning hne (hp.components_ne rs), ?_⟩
  · rw [Path.isAbsolute_ofComponents hbeginning,
      List.head?_append_of_ne_nil _ hp.components_ne_nil, Path.head?_components]
  · rw [List.append_nil, Path.steps_beginning hbegins hne (hp.components_ne rs)]
  · exact Path.isUsable_beginning hbegins hne (hp.components_ne rs) hu

end Below

/-- The path `p'` can stand in for `p`: both end in a name, and nothing that may be asked for below
`p` is too long below `p'`. -/
structure StandsIn (p p' : Path) : Prop where
  first : EndsInName p
  second : EndsInName p'
  usable : isUsable p' = true
  length : p'.spelling.length ≤ p.spelling.length

namespace StandsIn

variable (hs : StandsIn p p') (hq : q.isAbsolute = false) (hk : keepsBelow 0 q.named)
  (hu : isUsable (p.join q) = true)

include hs hq hu

theorem usable_join : isUsable (p'.join q) = true :=
  isUsable_join hs.first hq hs.second hs.usable hs.length hu

include hk

theorem ladder_descents {rs : List Path.Component} (hrs : rs <+: q.ordinary) :
    Ladder p p' (descents (p.components ++ rs)) (descents (p'.components ++ rs)) := by
  have hu' := hs.usable_join hq hu
  induction rs using List.reverseRecOn with
  | nil =>
    have hx := continues_beginning hs.first hq hu hrs
    have hx' := continues_beginning hs.second hq hu' hrs
    obtain ⟨above, ha⟩ := hs.first.exists_descents
    obtain ⟨above', ha'⟩ := hs.second.exists_descents
    rw [List.append_nil] at hx hx' ⊢
    rw [List.append_nil, ha, ha']
    exact .bottom rfl hx hx'
  | append_singleton rs c ih =>
    have hx := continues_beginning hs.first hq hu hrs
    have hx' := continues_beginning hs.second hq hu' hrs
    have hkeeps : keepsBelow 0 ((rs ++ [c]).map Path.Component.spelling) := by
      rw [← keepsBelow_filter, ← Path.map_spelling_ordinary] at hk
      obtain ⟨more, hmore⟩ := hrs
      rw [← hmore, List.map_append] at hk
      exact keepsBelow_of_append hk
    rw [hs.first.descents_append, hs.second.descents_append]
    refine .rung (by simp) hkeeps ?_ hx hx' (ih ((List.prefix_append ..).trans hrs))
    rwa [List.append_nil]

theorem ladder_ancestors : Ladder p p' (ancestors (p.join q)) (ancestors (p'.join q)) := by
  have hu' := hs.usable_join hq hu
  have hc := Path.components_join hq hs.first.spelling_ne_nil
  have hc' := Path.components_join hq hs.second.spelling_ne_nil
  rcases List.eq_nil_or_concat q.ordinary with ho | ⟨rs, c, ho⟩
  · obtain ⟨above, ha⟩ := hs.first.exists_ancestors hc
    obtain ⟨above', ha'⟩ := hs.second.exists_ancestors hc'
    rw [ha, ha']
    exact .bottom (filter_tailOf q) (continues_join_nil hs.first hq hu ho)
      (continues_join_nil hs.second hq hu' ho)
  · rw [List.concat_eq_append] at ho
    rw [ho] at hc hc'
    rw [hs.first.ancestors_append hc, hs.second.ancestors_append hc']
    have hnamed : q.named ≠ [] := by
      intro hnil
      rw [Path.ordinary_eq, hnil] at ho
      simp at ho
    refine .rung hnamed hk (keepsBelow_tailOf q hk) (continues_join hs.first hq hu)
      (continues_join hs.second hq hu') (hs.ladder_descents hq hk hu ?_)
    rw [ho]
    exact List.prefix_append ..

end StandsIn

theorem ancestors_ofComponents {cs : List Path.Component} (h : Path.IsBeginning cs) :
    ancestors (.ofComponents cs) = descents cs := by
  rcases List.eq_nil_or_concat cs with rfl | ⟨front, last, rfl⟩
  · rfl
  rw [List.concat_eq_append] at h ⊢
  by_cases hroot : front ++ [last] = [.root]
  · rw [hroot]
    rfl
  · rw [ancestors_eq hroot (Path.components_ofComponents h), descents_concat hroot]

/-- The directories of a path with a last component that can follow others. -/
theorem enclosing_eq {cs : List Path.Component} {c : Path.Component}
    (hx : x.components = cs ++ [c]) (hc : c.IsOrdinary) : enclosing x = descents cs := by
  have hparent : x.parent? = some (.ofComponents cs) := by
    unfold Path.parent?
    rw [hx, List.getLast?_concat, List.dropLast_concat]
    cases c with
    | root => exact hc.elim
    | here => rfl
    | up => rfl
    | name bytes => rfl
  have hbegins : cs <+: x.components := ⟨[c], hx.symm⟩
  rw [enclosing, hparent, Option.map_some, Option.getD_some,
    ancestors_ofComponents (Path.isBeginning_of_begins hbegins)]

theorem StandsIn.ladder_enclosing (hs : StandsIn p p') (hq : q.isAbsolute = false)
    (hk : keepsBelow 0 q.named) (hu : isUsable (p.join q) = true) (ho : q.ordinary ≠ []) :
    Ladder p p' (enclosing (p.join q)) (enclosing (p'.join q)) := by
  have hc := Path.components_join hq hs.first.spelling_ne_nil
  have hc' := Path.components_join hq hs.second.spelling_ne_nil
  obtain ⟨rs, c, hrs⟩ := (List.eq_nil_or_concat q.ordinary).resolve_left ho
  rw [List.concat_eq_append] at hrs
  have hordinary : c.IsOrdinary := Path.isOrdinary_of_mem (p := q) (by simp [hrs])
  rw [hrs, ← List.append_assoc] at hc hc'
  rw [enclosing_eq hc hordinary, enclosing_eq hc' hordinary]
  refine hs.ladder_descents hq hk hu ?_
  rw [hrs]
  exact List.prefix_append ..

/-! ## Writing a file -/

/-- A file that is written below the first place is written below the second one, too. -/
theorem Twins.writeWithDirectories (h : Twins p d p' d' t u) (hs : StandsIn p p')
    (hq : q.isAbsolute = false) (hk : keepsBelow 0 q.named) {content : ByteArray} {v : FileTree}
    (hw : t.writeWithDirectories (p.join q) content = (v, .ok ())) :
    ∃ w, u.writeWithDirectories (p'.join q) content = (w, .ok ()) ∧ Twins p d p' d' v w := by
  have hwritten := writeWithDirectories_ok hw
  have hu := usable_of_write hwritten
  have hu' := hs.usable_join hq hu
  -- a path without names leads to the place itself, where no file can be written
  have ho : q.ordinary ≠ [] := by
    intro ho
    have hgrows : t.Grows (t.makeAll (enclosing (p.join q))).1 :=
      makeAll_preserves (fun v v' x _ hv hm => hv.trans (.of_makeDirectory hm)) (.refl t)
    have hstanding := (continues_join_nil hs.first hq hu ho).isDirectory (filter_tailOf q)
      (h.first.grows hgrows) (hgrows.directory h.directory)
    rw [write_standing hstanding] at hwritten
    cases hwritten
  have hsame : SameResult (Twins p d p' d') (t.writeWithDirectories (p.join q) content)
      (u.writeWithDirectories (p'.join q) content) := by
    refine (h.makeAll (hs.ladder_enclosing hq hk hu ho)).writeWithDirectories fun hv => ?_
    exact hv.write (continues_join hs.first hq hu) (continues_join hs.second hq hu')
      (keepsBelow_tailOf q hk) content
  obtain ⟨v₁, w, answer, ht, hw', hv⟩ := hsame.parts
  rw [hw] at ht
  cases ht
  exact ⟨w, hw', hv⟩

theorem Twins.makeDirectories (h : Twins p d p' d' t u) (hs : StandsIn p p')
    (hq : q.isAbsolute = false) (hk : keepsBelow 0 q.named) {v : FileTree}
    (hm : t.makeDirectories (p.join q) = (v, .ok ())) :
    ∃ w, u.makeDirectories (p'.join q) = (w, .ok ()) ∧ Twins p d p' d' v w := by
  unfold FileTree.makeDirectories at hm ⊢
  obtain ⟨above, ha⟩ := hs.first.exists_ancestors
    (Path.components_join hq hs.first.spelling_ne_nil)
  have hu : isUsable (p.join q) = true := by
    rw [ha] at hm
    exact usable_of_makeAll (Path.join_ne_nil hs.first.spelling_ne_nil hq) (by rw [hm])
  obtain ⟨v₁, w₁, answer, ht, hu₁, hv⟩ := (h.makeAll (hs.ladder_ancestors hq hk hu)).parts
  rw [hm] at ht
  cases ht
  exact ⟨w₁, hu₁, hv⟩

end FileTree

/-! ## Unpacking -/

namespace Archive

open FileTree

variable {t u v : FileTree} {p p' : Path} {d d' : Location}

section Twins

variable (h : Twins p d p' d' t u) (hs : StandsIn p p')

include h hs

theorem Entry.place_twins (e : Entry) {bytes : ByteArray} {isSound : Bool} {file : Option Path}
    (hplace : e.place t p bytes isSound = (v, .ok file)) :
    ∃ w, e.place u p' bytes isSound = (w, .ok file) ∧ Twins p d p' d' v w := by
  unfold Entry.place at hplace ⊢
  by_cases hc : e.isContained = true
  · obtain ⟨hq, hk⟩ := Entry.keepsBelow_named hc
    rw [if_neg (by simp [hc])] at hplace ⊢
    by_cases hdir : e.isDirectory = true
    · rw [if_pos hdir] at hplace ⊢
      cases hm : t.makeDirectories (p.join e.path) with
      | mk made outcome =>
        rw [hm] at hplace
        cases outcome with
        | error fault => cases hplace
        | ok _ =>
          cases hplace
          obtain ⟨w, hw, hv⟩ := h.makeDirectories hs hq hk hm
          rw [hw]
          exact ⟨w, rfl, hv⟩
    · rw [if_neg hdir] at hplace ⊢
      cases hm : t.writeWithDirectories (p.join e.path) bytes with
      | mk made outcome =>
        rw [hm] at hplace
        cases outcome with
        | error fault => cases hplace
        | ok _ =>
          obtain ⟨w, hw, hv⟩ := h.writeWithDirectories hs hq hk hm
          rw [hw]
          cases isSound with
          | false => cases hplace
          | true =>
            cases hplace
            exact ⟨w, rfl, hv⟩
  · rw [if_pos (by simpa using hc)] at hplace
    cases hplace

theorem Entry.unpack_twins (e : Entry) {file : Option Path}
    (hunpack : e.unpack t p = (v, .ok file)) :
    ∃ w, e.unpack u p' = (w, .ok file) ∧ Twins p d p' d' v w := by
  unfold Entry.unpack at hunpack ⊢
  cases hc : e.content with
  | locked =>
    rw [hc] at hunpack
    cases hunpack
  | damaged bytes =>
    rw [hc] at hunpack
    exact e.place_twins h hs hunpack
  | sound bytes =>
    rw [hc] at hunpack
    exact e.place_twins h hs hunpack

end Twins

theorem unpackAll_twins (h : Twins p d p' d' t u) (hs : StandsIn p p') {entries : List Entry}
    {files : List Path} (hunpack : unpackAll p entries t = (v, .ok files)) :
    ∃ w, unpackAll p' entries u = (w, .ok files) ∧ Twins p d p' d' v w := by
  induction entries generalizing t u files with
  | nil =>
    cases hunpack
    exact ⟨u, rfl, h⟩
  | cons e rest ih =>
    unfold unpackAll at hunpack ⊢
    cases he : e.unpack t p with
    | mk t₁ outcome =>
      rw [he] at hunpack
      cases outcome with
      | error fault => cases hunpack
      | ok file =>
        obtain ⟨u₁, hu₁, h₁⟩ := e.unpack_twins h hs he
        rw [hu₁]
        dsimp only at hunpack ⊢
        cases hr : unpackAll p rest t₁ with
        | mk t₂ others =>
          rw [hr] at hunpack
          cases others with
          | error fault => cases hunpack
          | ok paths =>
            cases hunpack
            obtain ⟨u₂, hu₂, h₂⟩ := ih h₁ hr
            rw [hu₂]
            exact ⟨u₂, rfl, h₂⟩

theorem unpack_twins (h : Twins p d p' d' t u) (hs : StandsIn p p') (a : Archive)
    {files : List Path} (hunpack : a.unpack t p = (v, .ok files)) :
    ∃ w, a.unpack u p' = (w, .ok files) ∧ Twins p d p' d' v w := by
  unfold unpack at hunpack ⊢
  cases hall : unpackAll p a.entries t with
  | mk t₁ outcome =>
    rw [hall] at hunpack
    cases outcome with
    | error fault => cases hunpack
    | ok paths =>
      obtain ⟨u₁, hu₁, h₁⟩ := unpackAll_twins h hs hall
      rw [hu₁]
      cases paths with
      | nil => cases hunpack
      | cons first rest =>
        cases hunpack
        exact ⟨u₁, rfl, h₁⟩

/-! ## In a directory of its own -/

theorem standsIn_of_vacancy (h : t.vacancy? p = some d) (h' : u.vacancy? p' = some d')
    (hlength : p'.spelling.length ≤ p.spelling.length) : StandsIn p p' :=
  ⟨(EndsInName.of_vacancy h).1, (EndsInName.of_vacancy h').1, (EndsInName.of_vacancy h').2, hlength⟩

theorem twins_of_vacancy (h : t.vacancy? p = some d) (h' : u.vacancy? p' = some d') :
    Twins p d p' d' (t.put d .directory) (u.put d' .directory) := by
  have hbelow {t : FileTree} {p : Path} {d : Location} (h : t.vacancy? p = some d)
      (rest : Location) : (t.put d .directory).at? (d ++ rest) =
        if rest = [] then some .directory else none := by
    obtain ⟨above, directory, name, m, rfl, -, -, -, -, -, hnone⟩ := vacancy?_eq_some h
    have hne : directory ++ [name] ≠ [] := by simp
    by_cases hrest : rest = []
    · rw [if_pos hrest, hrest, List.append_nil, at?_put_same t _ hne]
    · have hother : directory ++ [name] ++ rest ≠ directory ++ [name] :=
        fun heq => hrest (List.append_right_eq_self.1 heq)
      rw [if_neg hrest, at?_put_other t _ hother,
        at?_eq_none hne hnone (List.prefix_append _ _)]
  refine ⟨⟨fun rest => ?_, fun rest target => ?_, ?_⟩, (private_vacancy h).2,
    (private_vacancy h').2⟩
  · rw [hbelow h, hbelow h']
  · rw [hbelow h]
    split <;> exact nofun
  · simpa using hbelow h []

/-- A file is read as before while a temporary directory stands. -/
theorem read_beside {path : Path} {loc : Location} {content : ByteArray}
    (h : t.vacancy? p = some d) (hl : t.locate true path = .ok (.present loc))
    (hc : t.at? loc = some (.file content)) : (t.put d .directory).read path = .ok content := by
  obtain ⟨above, directory, name, m, rfl, -, -, -, -, -, hnone⟩ := vacancy?_eq_some h
  have hmissing := at?_eq_none (by simp) hnone (List.prefix_refl (directory ++ [name]))
  have hother : loc ≠ directory ++ [name] := by
    rintro rfl
    rw [hmissing] at hc
    cases hc
  refine read_of_locate (locate_grows hl (.put_new hmissing)) ?_
  rw [at?_put_other t _ hother, hc]

theorem usable_of_unpackFile {path destination : Path} {files : List Path}
    (h : unpackFile t path destination = (v, .ok files)) : isUsable path = true := by
  have hread : ∃ content, t.read path = .ok content := by
    cases hr : t.read path with
    | ok content => exact ⟨content, rfl⟩
    | error e =>
      unfold unpackFile load at h
      rw [hr] at h
      cases e <;> cases h
  obtain ⟨content, hread⟩ := hread
  cases hl : t.locate true path with
  | ok place => exact (locate_ok hl).2.1
  | error e =>
    unfold FileTree.read at hread
    rw [hl] at hread
    cases hread

theorem unpackFile_twins (h : Twins p d p' d' t u) (hs : StandsIn p p') {path path' : Path}
    {content : ByteArray} (hread : t.read path = .ok content) (hread' : u.read path' = .ok content)
    {files : List Path} (hunpack : unpackFile t path p = (v, .ok files)) :
    ∃ w, unpackFile u path' p' = (w, .ok files) ∧ Twins p d p' d' v w := by
  unfold unpackFile load at hunpack ⊢
  rw [hread] at hunpack
  rw [hread']
  dsimp only at hunpack ⊢
  cases ha : read? content with
  | none =>
    rw [ha] at hunpack
    cases hunpack
  | some a =>
    rw [ha] at hunpack
    exact unpack_twins h hs a hunpack

/-- An archive that can be unpacked in a temporary directory gives the same files in another tree
where it stands, too, and in another temporary directory whose path is not longer. -/
theorem unpackFile_elsewhere {path path' : Path} {loc loc' : Location} {content : ByteArray}
    (hl : t.locate true path = .ok (.present loc)) (hc : t.at? loc = some (.file content))
    (hl' : u.locate true path' = .ok (.present loc')) (hc' : u.at? loc' = some (.file content))
    (hvacant : (u.vacancy? p').isSome = true) (hlength : p'.spelling.length ≤ p.spelling.length)
    {files : List Path}
    (h : t.withTemporary? p (fun inside => unpackFile inside path p) = some (v, .ok files)) :
    ∃ w, u.withTemporary? p' (fun inside => unpackFile inside path' p') = some (w, .ok files) := by
  obtain ⟨d', hd'⟩ := Option.isSome_iff_exists.1 hvacant
  obtain ⟨d, hd, hwork⟩ := Option.map_eq_some_iff.1 h
  have hs := standsIn_of_vacancy hd hd' hlength
  cases hu : unpackFile (t.put d .directory) path p with
  | mk after outcome =>
    dsimp only at hwork
    rw [hu] at hwork
    cases hwork
    obtain ⟨w, hw, -⟩ := unpackFile_twins (twins_of_vacancy hd hd') hs (read_beside hd hl hc)
      (read_beside hd' hl' hc') hu
    unfold withTemporary?
    rw [hd', Option.map_some]
    dsimp only
    rw [hw]
    exact ⟨_, rfl⟩

end Archive
end BillOfMaterials
