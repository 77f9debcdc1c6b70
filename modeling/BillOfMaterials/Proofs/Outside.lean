import BillOfMaterials.FileTree.Walk
import BillOfMaterials.Proofs.Containment

/-!
# What unpacking does outside of its destination

Unpacking an archive changes nothing outside of the directory that its destination leads to,
whatever the names of the entries and whatever becomes of them. Only the destination itself may be
missing at first; then the directories that it lies in are made on the way.

It is assumed that no link stood in that directory. Which directory it is shows afterwards: the
path of a missing destination can turn back by `..` into one that was there all along.
-/
namespace BillOfMaterials

open BillOfMaterials.Path (dot)

namespace FileTree

/-- A path leads to a place at which files of its own can be asked for. -/
def LeadsTo (t : FileTree) (p : Path) (d : Location) : Prop :=
  ∃ m, t.Leads maxLinks (t.start p) p.named m d

/-- A path leads through a place, on the way to where it leads or would lead. -/
def LeadsThrough (t : FileTree) (p : Path) (loc : Location) : Prop :=
  ∃ above m, above <+: p.named ∧ t.Leads maxLinks (t.start p) above m loc

/-- No link of `t` stands at or below the place that `p` leads to in `u`. -/
def ClearOfLinks (t u : FileTree) (p : Path) : Prop :=
  ∀ d loc target, u.LeadsTo p d → d <+: loc → t.at? loc ≠ some (.link target)

/-- The tree `u` has no other links than `t`. Outside of the place that `p` leads to, it differs
from `t` at most by directories that `p` leads through and that were missing. -/
structure Contained (t : FileTree) (p : Path) (u : FileTree) : Prop where
  grows : t.Grows u
  link : ∀ {loc target}, u.at? loc = some (.link target) → t.at? loc = some (.link target)
  outside : ∀ loc, (∀ d, u.LeadsTo p d → ¬d <+: loc) → u.at? loc = t.at? loc ∨
    t.at? loc = none ∧ u.at? loc = some .directory ∧ u.LeadsThrough p loc

variable {t u v v' : FileTree} {p q x : Path} {d loc : Location}

theorem LeadsTo.grows (h : t.LeadsTo p d) (hg : t.Grows u) : u.LeadsTo p d := by
  obtain ⟨m, hl⟩ := h
  rw [← hg.start_eq p] at hl
  exact ⟨m, hl.grows hg⟩

theorem LeadsThrough.grows (h : t.LeadsThrough p loc) (hg : t.Grows u) : u.LeadsThrough p loc := by
  obtain ⟨above, m, ha, hl⟩ := h
  rw [← hg.start_eq p] at hl
  exact ⟨above, m, ha, hl.grows hg⟩

/-- A directory that is made for a beginning of a path is one that the path leads through. -/
theorem made_through {a b : List Bytes} (habsolute : x.isAbsolute = p.isAbsolute)
    (hp : p.named = a ++ b) (ha : a.filter (· ≠ [dot]) = x.named.filter (· ≠ [dot]))
    (hm : t.makeDirectory x = .ok u) :
    ∃ loc, t.at? loc = none ∧ u = t.put loc .directory ∧ u.LeadsThrough p loc := by
  obtain ⟨above, name, m, parent, hn, hl, ⟨hdot, hup, hlen⟩, hnone, rfl⟩ := makeDirectory_ok hm
  have hgrows : t.Grows (t.put (parent ++ [name]) .directory) := .put_new hnone
  have hmade := (hl.grows hgrows).append
    (.down hdot hup hlen (at?_put_same t .directory (by simp)) .here)
  have hstart : t.start x = t.start p := by rw [start, start, habsolute]
  rw [← hn, hstart, ← hgrows.start_eq p] at hmade
  exact ⟨_, hnone, rfl, a, m, ⟨b, hp.symm⟩, hmade.of_filter_dot ha⟩

/-- What is asked for below `p` is looked for from the place that `p` leads to. -/
theorem leads_of_locate_join {final : Bool} {place : Place} (hq : q.isAbsolute = false)
    (hk : keepsBelow 0 q.named) (h : t.locate final (p.join q) = .ok place) :
    ∃ r m d, (p.join q).steps = p.named ++ r ∧ (r ≠ [] ∨ p.named = []) ∧ keepsBelow 0 r ∧
      t.Leads maxLinks (t.start p) p.named m d ∧ t.follow final m d r = .ok place := by
  obtain ⟨r, hsteps, hr, hkr⟩ := steps_join (p := p) hq hk
  obtain ⟨-, -, hf⟩ := locate_ok h
  rw [start_join t hq, hsteps] at hf
  by_cases hrest : r = []
  · -- nothing is asked for but the place that lookups start from
    have hnil : p.named = [] := hr.resolve_left fun hne => hne hrest
    rw [hnil] at hf
    exact ⟨r, _, _, hsteps, hr, hkr, by rw [hnil]; exact .here, hf⟩
  · obtain ⟨m, d, hl⟩ := leads_of_follow hrest hf
    exact ⟨r, m, d, hsteps, hr, hkr, hl, (hl.follow_append final hrest).symm.trans hf⟩

theorem ClearOfLinks.of_grows (hc : t.ClearOfLinks v p) (hg : u.Grows v) : t.ClearOfLinks u p :=
  fun d loc target hd => hc d loc target (hd.grows hg)

namespace Contained

theorem refl (t : FileTree) (p : Path) : t.Contained p t :=
  ⟨.refl t, id, fun _ _ => .inl rfl⟩

/-- What a change leaves as it was is as it may be afterwards. -/
theorem carry (h : t.Contained p v) (hg : v.Grows v') (hsame : v'.at? loc = v.at? loc)
    (hout : ∀ d, v'.LeadsTo p d → ¬d <+: loc) : v'.at? loc = t.at? loc ∨
      t.at? loc = none ∧ v'.at? loc = some .directory ∧ v'.LeadsThrough p loc := by
  rw [hsame]
  rcases h.outside loc fun d hd => hout d (hd.grows hg) with hold | ⟨hnone, hdir, hl⟩
  · exact .inl hold
  · exact .inr ⟨hnone, hdir, hl.grows hg⟩

/-- Where the path leads to a place without links, a change may be made at and below that place. -/
theorem within (h : t.Contained p v) (hd : v.LeadsTo p d) (hv : v.Private d v') :
    t.Contained p v' where
  grows := h.grows.trans hv.grows
  link {loc target} hlink := by
    by_cases hloc : d <+: loc
    · exact absurd hlink (hv.noLink loc target hloc)
    · exact h.link (hv.at?_eq hloc ▸ hlink)
  outside loc hout := by
    have hloc : ¬d <+: loc := hout d (hd.grows hv.grows)
    exact h.carry hv.grows (hv.at?_eq hloc) hout

/-- Where the path leads nowhere yet, one more directory that it leads through may be made. -/
theorem through (h : t.Contained p v) (hnone : v.at? loc = none)
    (hl : (v.put loc .directory).LeadsThrough p loc) : t.Contained p (v.put loc .directory) := by
  have hne : loc ≠ [] := by
    rintro rfl
    rw [at?_root] at hnone
    cases hnone
  have hgrows : v.Grows (v.put loc .directory) := .put_new hnone
  refine ⟨h.grows.trans hgrows, ?_, fun other hout => ?_⟩
  · intro other target hlink
    by_cases hother : other = loc
    · rw [hother, at?_put_same v _ hne] at hlink
      cases hlink
    · rw [at?_put_other v _ hother] at hlink
      exact h.link hlink
  · by_cases hother : other = loc
    · subst hother
      exact .inr ⟨h.grows.missing hnone, at?_put_same v _ hne, hl⟩
    · exact h.carry hgrows (at?_put_other v _ hother) hout

/-- A place without links is private to what is done there. -/
theorem isPrivate (h : t.Contained p v) (hc : t.ClearOfLinks v p) (hd : v.LeadsTo p d) :
    v.Private d v :=
  ⟨.refl v, fun loc target hloc hlink => hc d loc target hd hloc (h.link hlink), rfl⟩

section Step

variable (h : t.Contained p v) (hc : t.ClearOfLinks v p) (hq : q.isAbsolute = false)
  (hk : keepsBelow 0 q.named)

include h hc hq hk

theorem makeDirectory (hx : Begins x (p.join q)) (hm : v.makeDirectory x = .ok v') :
    t.Contained p v' := by
  -- as long as `p` leads nowhere, only directories on the way to it can be made
  by_cases hlead : ∃ d, v.LeadsTo p d
  · obtain ⟨d, m, hl⟩ := hlead
    have hharmless := harmless_of_begins hq hk hl hx
    exact h.within ⟨m, hl⟩ ((h.isPrivate hc ⟨m, hl⟩).makeDirectory hharmless hm)
  · have habsolute : x.isAbsolute = p.isAbsolute := by rw [hx.absolute, Path.isAbsolute_join hq]
    rcases begins_join hq hx with ⟨a, b, hp, ha⟩ | ⟨a, b, hxn, hb, ha, -⟩
    · obtain ⟨loc, hnone, rfl, hl⟩ := made_through habsolute hp ha.symm hm
      exact h.through hnone hl
    · -- to make a directory further down, `p` must lead somewhere
      obtain ⟨above, name, m, parent, hn, hl, -⟩ := makeDirectory_ok hm
      obtain ⟨b', last, rfl⟩ := (List.eq_nil_or_concat b).resolve_left hb
      rw [hxn, List.concat_eq_append, ← List.append_assoc] at hn
      rw [← (List.append_inj' hn rfl).1, start, habsolute, ← start] at hl
      obtain ⟨m', d, hl', -⟩ := hl.split
      exact absurd ⟨d, m', hl'.of_filter_dot ha.symm⟩ hlead

theorem write {content : ByteArray} (hw : v.write (p.join q) content = .ok v') :
    t.Contained p v' := by
  obtain ⟨place, hp⟩ : ∃ place, v.locate true (p.join q) = .ok place := by
    rcases write_ok hw with ⟨directory, name, hp, -⟩ | ⟨loc, old, hp, -, -⟩
    · exact ⟨_, hp⟩
    · exact ⟨_, hp⟩
  obtain ⟨r, m, d, hs, hr, hkr, hl, -⟩ := leads_of_locate_join hq hk hp
  have hlead : v.LeadsTo p d := ⟨m, hl⟩
  rw [← start_join v (p := p) hq] at hl
  exact h.within hlead ((h.isPrivate hc hlead).write hs hl hr hkr hw)

end Step

end Contained

end FileTree

namespace Archive

open FileTree

variable {t u : FileTree} {p : Path} {result : Except UnpackFault (List Path)}

/-- Whatever unpacking has done so far is contained in the place that `p` leads to by then, if that
place holds no link. -/
theorem unpackingKeeps_contained (t : FileTree) (p : Path) :
    UnpackingKeeps (fun v => t.ClearOfLinks v p → t.Contained p v) p where
  directory hq hk hx hv hm hc := by
    have hbefore := hc.of_grows (.of_makeDirectory hm)
    exact (hv hbefore).makeDirectory hbefore hq hk hx hm
  file hq hk hv hw hc := by
    have hbefore := hc.of_grows (.of_write hw)
    exact (hv hbefore).write hbefore hq hk hw

/-- Unpacking changes nothing outside of the place that its destination leads to afterwards, if no
link stood there: neither the unpacking of any entries nor that of an archive in the tree, whatever
comes out of it. Only directories that were missing on the way to the destination may have been made
in addition, and none where the destination was there before. -/
theorem unpack_contained
    (h : (∃ a : Archive, a.unpack t p = (u, result)) ∨ ∃ path, unpackFile t path p = (u, result))
    (hlinks : ∀ d loc target, u.LeadsTo p d → d <+: loc → t.at? loc ≠ some (.link target)) :
    (∀ loc, (∀ d, u.LeadsTo p d → ¬d <+: loc) → u.at? loc = t.at? loc ∨
      t.at? loc = none ∧ u.at? loc = some .directory ∧ u.LeadsThrough p loc) ∧
    ∀ d, t.LeadsTo p d → ∀ loc, ¬d <+: loc → u.at? loc = t.at? loc := by
  have hkept {P : FileTree → Prop} (hP : UnpackingKeeps P p) (hstart : P t) : P u := by
    rcases h with ⟨a, h⟩ | ⟨path, h⟩
    · have hend := hP.unpack hstart a
      rwa [h] at hend
    · have hend := hP.unpackFile hstart path
      rwa [h] at hend
  have hcontained := hkept (unpackingKeeps_contained t p) (fun _ => .refl t p) hlinks
  refine ⟨hcontained.outside, fun d hd loc hloc => ?_⟩
  have hclear (below : Location) (target : Path) (hbelow : d <+: below) :
      t.at? below ≠ some (.link target) :=
    hlinks d below target (hd.grows hcontained.grows) hbelow
  obtain ⟨m, hl⟩ := hd
  have hprivate := hkept (unpackingKeeps_private hl) ⟨.refl t, hclear, rfl⟩
  exact hprivate.at?_eq hloc

/-- A destination behind a link, in a directory that is missing. -/
def sheltered : FileTree where
  entries := [
    ([Text.bytes "work"], .directory),
    ([Text.bytes "work", Text.bytes "kept"], .file .empty),
    ([Text.bytes "link"], .link (.ofString "work"))]

/-- The second entry leads out of the destination, the first one only goes up within it. -/
def spilling : Archive :=
  ⟨[⟨"a/../b.jar", .sound .empty⟩, ⟨"../c.jar", .sound .empty⟩]⟩

def spilt : FileTree := (spilling.unpack sheltered (.ofString "link/new/out")).1

theorem spilling_contained :
    spilling.unpack sheltered (.ofString "link/new/out") = (spilt, .error (.escape "../c.jar")) ∧
      spilt.at? [Text.bytes "work", Text.bytes "kept"] =
        sheltered.at? [Text.bytes "work", Text.bytes "kept"] := by
  have hresult : (spilling.unpack sheltered (.ofString "link/new/out")).2 =
      .error (.escape "../c.jar") := by decide +kernel
  have hunpack : spilling.unpack sheltered (.ofString "link/new/out") =
      (spilt, .error (.escape "../c.jar")) := Prod.ext rfl hresult
  have hplace (d : Location) (hd : spilt.LeadsTo (.ofString "link/new/out") d) :
      d = [Text.bytes "work", Text.bytes "new", Text.bytes "out"] := by
    obtain ⟨m, hl⟩ := hd
    have hf : spilt.follow true maxLinks (spilt.start (.ofString "link/new/out"))
        ((Path.ofString "link/new/out").named ++ [[dot]]) =
          .ok (.present [Text.bytes "work", Text.bytes "new", Text.bytes "out"]) := by
      decide +kernel
    rw [hl.follow_to true] at hf
    cases hf
    rfl
  have hlinks (d loc : Location) (target : Path)
      (hd : spilt.LeadsTo (.ofString "link/new/out") d) (hloc : d <+: loc) :
      sheltered.at? loc ≠ some (.link target) := by
    intro hlink
    rw [hplace d hd] at hloc
    have hlength : 3 ≤ loc.length := hloc.length_le
    have hheight : sheltered.height = 2 := by decide +kernel
    have hle := length_le_height hlink
    omega
  have hcontained := (unpack_contained (.inl ⟨_, hunpack⟩) hlinks).1
    [Text.bytes "work", Text.bytes "kept"] fun d hd => hplace d hd ▸ by decide +kernel
  refine ⟨hunpack, hcontained.resolve_right fun hmade => ?_⟩
  have hkept : (sheltered.at? [Text.bytes "work", Text.bytes "kept"]).isSome = true := by
    decide +kernel
  rw [hmade.1] at hkept
  cases hkept

end Archive
end BillOfMaterials
