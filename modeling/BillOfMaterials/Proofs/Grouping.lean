import BillOfMaterials.Distribution
import BillOfMaterials.Proofs.Encoding
import BillOfMaterials.Proofs.Sorting

/-!
# Groups in a distribution

The coordinates of a distribution are sorted by the text `group:artifact`. By this text a longer group
can stand before the group that it begins with, as `org.a-b` does before `org.a`, so the groups are not
in order themselves. They stay together all the same. The texts that begin with `org.a:` are an interval
of the order, and where no group holds a colon, they are the texts of one group.
-/
namespace BillOfMaterials

/-! ## Blocks of an ordered list -/

section Block

variable {α : Type} {R : α → α → Prop} {p : α → Bool} {x : α} {xs : List α}

/-- What satisfies `p` stands in front if `p` holds of all that can stand between it and `x`. -/
theorem exists_front (hsorted : (x :: xs).Pairwise R)
    (hbetween : ∀ b ∈ xs, ∀ c ∈ xs, R x b → R b c → p c → p b) :
    ∃ after, xs = xs.filter p ++ after := by
  induction xs with
  | nil => exact ⟨[], rfl⟩
  | cons y ys ih =>
    obtain ⟨hbefore, hys⟩ := List.pairwise_cons.1 hsorted
    by_cases hy : p y
    · have hxys : (x :: ys).Pairwise R := hsorted.sublist ((List.sublist_cons_self y ys).cons_cons x)
      obtain ⟨after, hafter⟩ := ih hxys fun b hb c hc =>
        hbetween b (List.mem_cons_of_mem y hb) c (List.mem_cons_of_mem y hc)
      refine ⟨after, ?_⟩
      rw [List.filter_cons_of_pos hy, List.cons_append, ← hafter]
    · -- the front ends here: nothing that satisfies `p` can follow
      have hnone : (y :: ys).filter p = [] := by
        rw [List.filter_cons_of_neg hy, List.filter_eq_nil_iff]
        intro c hc hpc
        have hyc := (List.pairwise_cons.1 hys).1 c hc
        exact hy (hbetween y List.mem_cons_self c (List.mem_cons_of_mem y hc)
          (hbefore y List.mem_cons_self) hyc hpc)
      exact ⟨y :: ys, by rw [hnone, List.nil_append]⟩

/-- What satisfies `p` stands together in an ordered list if `p` holds of all that can stand between. -/
theorem exists_block (hsorted : xs.Pairwise R)
    (hbetween : ∀ a ∈ xs, ∀ b ∈ xs, ∀ c ∈ xs, R a b → R b c → p a → p c → p b) :
    ∃ before after, xs = before ++ xs.filter p ++ after := by
  induction xs with
  | nil => exact ⟨[], [], rfl⟩
  | cons x xs ih =>
    have hlater {c : α} (hc : c ∈ xs) : c ∈ x :: xs := List.mem_cons_of_mem x hc
    by_cases hx : p x
    · obtain ⟨after, hafter⟩ := exists_front hsorted fun b hb c hc hxb hbc =>
        hbetween x List.mem_cons_self b (hlater hb) c (hlater hc) hxb hbc hx
      refine ⟨[], after, ?_⟩
      rw [List.filter_cons_of_pos hx, List.nil_append, List.cons_append, ← hafter]
    · obtain ⟨before, after, hxs⟩ := ih (List.pairwise_cons.1 hsorted).2 fun a ha b hb c hc =>
        hbetween a (hlater ha) b (hlater hb) c (hlater hc)
      refine ⟨x :: before, after, ?_⟩
      rw [List.filter_cons_of_neg hx, List.cons_append, List.cons_append, ← hxs]

end Block

/-- What lies between two lists of bytes with a common beginning begins so, too. -/
theorem prefix_of_between {front as bs cs : Bytes} (hle : (compare (front ++ as) bs).isLE)
    (hge : (compare bs (front ++ cs)).isLE) : front <+: bs := by
  induction front generalizing bs with
  | nil => exact List.nil_prefix
  | cons x front ih =>
    cases bs with
    | nil => cases hle
    | cons y bs =>
      rw [List.cons_append, List.compare_cons_cons] at hle hge
      have hswap : compare y x = (compare x y).swap := Std.OrientedCmp.eq_swap
      rw [hswap] at hge
      cases hxy : compare x y with
      | lt =>
        rw [hxy] at hge
        cases hge
      | gt =>
        rw [hxy] at hle
        cases hle
      | eq =>
        rw [hxy] at hle hge
        rw [Std.LawfulEqOrd.eq_of_compare hxy]
        exact List.cons_prefix_cons.2 ⟨rfl, ih hle hge⟩

namespace Coordinate

variable {a b c : Coordinate}

def GroupIsPlain (c : Coordinate) : Prop := ':' ∉ c.group.toList

instance : DecidablePred GroupIsPlain := fun _ => inferInstanceAs (Decidable (¬_))

theorem GroupIsPlain.colon_not_mem (h : c.GroupIsPlain) : (0x3A : UInt8) ∉ Text.bytes c.group :=
  Text.not_mem_bytes (by decide) h

theorem moduleBytes_append (c : Coordinate) :
    c.moduleBytes = (Text.bytes c.group ++ [0x3A]) ++ Text.bytes c.artifact := rfl

theorem moduleBytes_cons (c : Coordinate) :
    c.moduleBytes = Text.bytes c.group ++ 0x3A :: Text.bytes c.artifact := by
  rw [moduleBytes_append, List.append_assoc, List.singleton_append]

/-- Without colons in groups, the module name says where the group ends. -/
theorem moduleOrder_eq_iff (ha : a.GroupIsPlain) (hb : b.GroupIsPlain) :
    moduleOrder a b = .eq ↔ b.group = a.group ∧ b.artifact = a.artifact := by
  rw [moduleOrder, Std.LawfulEqOrd.compare_eq_iff_eq, moduleBytes_cons, moduleBytes_cons]
  constructor
  · intro h
    obtain ⟨hgroup, hartifact⟩ := Text.append_sep_inj ha.colon_not_mem hb.colon_not_mem h
    exact ⟨(Text.bytes_injective hgroup).symm, (Text.bytes_injective hartifact).symm⟩
  · rintro ⟨hgroup, hartifact⟩
    rw [hgroup, hartifact]

/-- What lies between two coordinates of one group is of this group. -/
theorem group_eq_of_between (ha : a.GroupIsPlain) (hb : b.GroupIsPlain)
    (hab : (moduleOrder a b).isLE) (hbc : (moduleOrder b c).isLE) (hac : a.group = c.group) :
    b.group = a.group := by
  rw [moduleOrder, moduleBytes_append a] at hab
  rw [moduleOrder, moduleBytes_append c, ← hac] at hbc
  obtain ⟨rest, hrest⟩ := prefix_of_between hab hbc
  rw [List.append_assoc, List.singleton_append, moduleBytes_cons] at hrest
  obtain ⟨hgroup, -⟩ := Text.append_sep_inj ha.colon_not_mem hb.colon_not_mem hrest
  exact (Text.bytes_injective hgroup).symm

/-- Within a group the artifacts decide. -/
theorem moduleOrder_of_group (h : a.group = b.group) :
    moduleOrder a b = Text.order a.artifact b.artifact := by
  rw [moduleOrder, moduleBytes_append, moduleBytes_append, h, compare_append_left, Text.order]

theorem sortedBy_sortByModule (cs : List Coordinate) :
    SortedBy moduleOrder cs (sortByModule cs) := .mergeSort cs

theorem sortByModule_again (cs : List Coordinate) :
    sortByModule (sortByModule cs) = sortByModule cs :=
  List.mergeSort_of_pairwise (sortedBy_sortByModule cs).ordered

end Coordinate

namespace Distribution

open Coordinate

def inGroup (group : String) (cs : List Coordinate) : List Coordinate :=
  cs.filter fun c => c.group = group

def ofModule (group artifact : String) (cs : List Coordinate) : List Coordinate :=
  cs.filter fun c => c.group = group ∧ c.artifact = artifact

/-- A distribution has the coordinates that it is made from. If no colon stands in their groups, the
coordinates of each group stand together and go by the bytes of their artifacts, and those of one module
stand as they were given. Making the distribution again from what it holds changes nothing. -/
theorem assemble_groups (archive : String) (name : DistributionName) {cs : List Coordinate}
    (unknown : List String) (hplain : ∀ c ∈ cs, c.GroupIsPlain) :
    let d := assemble archive name cs unknown
    d.coordinates.Perm cs ∧
      (∀ group, ∃ before after,
        d.coordinates = before ++ inGroup group d.coordinates ++ after) ∧
      (∀ group, (inGroup group d.coordinates).Pairwise fun a b =>
        (Text.order a.artifact b.artifact).isLE) ∧
      (∀ group artifact, ofModule group artifact d.coordinates = ofModule group artifact cs) ∧
      assemble d.archive d.name d.coordinates d.unknown = d := by
  intro d
  have hsorted : SortedBy moduleOrder cs d.coordinates := sortedBy_sortByModule cs
  have hmem {c : Coordinate} (hc : c ∈ d.coordinates) : c ∈ cs := hsorted.perm.mem_iff.1 hc
  refine ⟨hsorted.perm, fun group => ?_, fun group => ?_, fun group artifact => ?_, ?_⟩
  · refine exists_block hsorted.ordered fun a ha b hb c _ hab hbc hga hgc => ?_
    simp only [decide_eq_true_eq] at hga hgc ⊢
    rw [← hga]
    exact group_eq_of_between (hplain a (hmem ha)) (hplain b (hmem hb)) hab hbc (hga.trans hgc.symm)
  · refine (hsorted.ordered.filter _).imp_of_mem fun {a b} ha hb hab => ?_
    have hga : a.group = group := by simpa using (List.mem_filter.1 ha).2
    have hgb : b.group = group := by simpa using (List.mem_filter.1 hb).2
    rwa [moduleOrder_of_group (hga.trans hgb.symm)] at hab
  · by_cases hsome : ∃ c ∈ cs, c.group = group ∧ c.artifact = artifact
    · obtain ⟨c, hc, rfl, rfl⟩ := hsome
      have hclass {bs : List Coordinate} (hbs : ∀ b ∈ bs, b ∈ cs) :
          ofModule c.group c.artifact bs = bs.filter fun b => moduleOrder c b == .eq := by
        refine List.filter_congr fun b hb => ?_
        rw [Bool.eq_iff_iff, decide_eq_true_iff, beq_iff_eq,
          moduleOrder_eq_iff (hplain c hc) (hplain b (hbs b hb))]
      rw [hclass fun b => hmem, hclass fun b => id]
      exact hsorted.stable c
    · have hnone {bs : List Coordinate} (hbs : ∀ b ∈ bs, b ∈ cs) : ofModule group artifact bs = [] :=
        List.filter_eq_nil_iff.2 fun b hb hmodule => hsome ⟨b, hbs b hb, by simpa using hmodule⟩
      rw [hnone fun b => hmem, hnone fun b => id]
  · show (⟨_, _, sortByModule (sortByModule cs), _⟩ : Distribution) = _
    rw [sortByModule_again]
    rfl

/-- Coordinates of three groups of which one begins the others. -/
def tangled : List Coordinate :=
  [⟨"org.a", "x", .fixed "2"⟩, ⟨"org.a-b", "x", .fixed "1"⟩, ⟨"org.a", "x", .fixed "1"⟩,
    ⟨"org.a.b", "a", .fixed "1"⟩, ⟨"org.a", "b", .inherited "v"⟩]

theorem tangled_groups :
    (∀ c ∈ tangled, c.GroupIsPlain) ∧
      let d := assemble "a.zip" ⟨"a", "A"⟩ tangled []
      (∃ before after, d.coordinates = before ++ inGroup "org.a" d.coordinates ++ after) ∧
        (inGroup "org.a" d.coordinates).map (·.artifact) = ["b", "x", "x"] ∧
        ofModule "org.a" "x" d.coordinates =
          [⟨"org.a", "x", .fixed "2"⟩, ⟨"org.a", "x", .fixed "1"⟩] := by
  have hplain : ∀ c ∈ tangled, c.GroupIsPlain := by decide
  obtain ⟨-, hblock, -, hmodule, -⟩ := assemble_groups "a.zip" ⟨"a", "A"⟩ [] hplain
  refine ⟨hplain, hblock "org.a", ?_, ?_⟩
  · show (inGroup "org.a" (sortByModule tangled)).map (·.artifact) = _
    rw [sortByModule, mergeSort_eq_insertionSort]
    decide +kernel
  · rw [hmodule]
    decide

/-- A colon in a group tears another group apart. -/
example :
    let cs : List Coordinate :=
      [⟨"a", "b:a", .fixed "1"⟩, ⟨"a", "b:c", .fixed "1"⟩, ⟨"a:b", "b", .fixed "1"⟩]
    (assemble "a.zip" ⟨"a", "A"⟩ cs []).coordinates.map (·.group) = ["a", "a:b", "a"] := by
  intro cs
  show (sortByModule cs).map (·.group) = _
  rw [sortByModule, mergeSort_eq_insertionSort]
  decide +kernel

end Distribution
end BillOfMaterials
