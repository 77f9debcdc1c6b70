import BillOfMaterials.Proofs.Ordering
import BillOfMaterials.Proofs.Sorting

/-!
# One sorted list

The order reads the module name and the version of a coordinate, and it is a total order of what it
reads. So coordinates are sorted into one list, whatever their order was before, as far as module names
and versions go; and all that is written of a coordinate is its module name and its version. Different
coordinates that the order does not tell apart may still change places.
-/
namespace BillOfMaterials

open Std (TransCmp LawfulEqCmp)

/-! ## The order of versions -/

namespace Version

/-- Fixed versions stand before inherited ones. -/
def rank : Version → Nat
  | .fixed _ => 0
  | .inherited _ => 1

/-- The version itself, or the property that it is inherited from. -/
def name : Version → String
  | .fixed text => text
  | .inherited property => property

theorem order_eq : order = compareLex (compareOn rank) fun v w => Text.order v.name w.name := by
  funext v w
  cases v <;> cases w <;> rfl

instance : TransCmp order := by
  rw [order_eq]
  infer_instance

end Version

namespace Coordinate

/-! ## What the order reads -/

def identity (c : Coordinate) : String × Version := (c.moduleName, c.version)

def identityOrder (i j : String × Version) : Ordering := (Text.order i.1 j.1).then (i.2.order j.2)

theorem moduleOrder_eq (a b : Coordinate) :
    moduleOrder a b = Text.order a.moduleName b.moduleName := by
  rw [moduleOrder, moduleBytes_eq, moduleBytes_eq, Text.order]

theorem order_eq (a b : Coordinate) : order a b = identityOrder a.identity b.identity := by
  rw [order, moduleOrder_eq]
  rfl

instance : TransCmp fun i j : String × Version => i.2.order j.2 where
  eq_swap := by
    intro i j
    have h : Std.OrientedCmp Version.order := inferInstance
    exact h.eq_swap
  isLE_trans := by
    intro i j k
    have h : TransCmp Version.order := inferInstance
    exact h.isLE_trans

instance : TransCmp identityOrder :=
  inferInstanceAs (TransCmp (compareLex (fun i j : String × Version => Text.order i.1 j.1)
    fun i j => i.2.order j.2))

instance : LawfulEqCmp identityOrder where
  eq_of_compare := by
    intro i j h
    obtain ⟨hname, hversion⟩ := Ordering.then_eq_eq.1 h
    exact Prod.ext ((Text.order_eq_iff _ _).1 hname) ((Version.order_eq_iff _ _).1 hversion)

instance : TransCmp order where
  eq_swap := by
    intro a b
    rw [order_eq, order_eq]
    exact Std.OrientedCmp.eq_swap
  isLE_trans := by
    intro a b c hab hbc
    rw [order_eq] at hab hbc ⊢
    exact TransCmp.isLE_trans hab hbc

/-- The order goes by module name first. -/
theorem moduleOrder_isLE {a b : Coordinate} (h : (order a b).isLE) : (moduleOrder a b).isLE := by
  unfold order at h
  cases hmodule : moduleOrder a b with
  | lt => rfl
  | eq => rfl
  | gt =>
    rw [hmodule] at h
    cases h

/-! ## Sorting -/

theorem sortedBy_sort (cs : List Coordinate) : SortedBy order cs (sort cs) := .mergeSort cs

theorem identity_sort_perm {cs ds : List Coordinate} (h : cs.Perm ds) :
    (sort cs).map identity = (sort ds).map identity :=
  SortedBy.map_key order_eq (sortedBy_sort cs) (sortedBy_sort ds) h

def renderIdentity (i : String × Version) : String := i.1 ++ ":" ++ i.2.render

/-- The order is a total preorder, goes by the bytes of the module names first, and sorting by it is
canonical: any two lists of the same coordinates are sorted into lists that read alike, with the same
versions in the same places. -/
theorem sort_canonical :
    ((∀ a, order a a = .eq) ∧
      (∀ a b c, (order a b).isLE → (order b c).isLE → (order a c).isLE) ∧
      (∀ a b, (order a b).isLE ∨ (order b a).isLE) ∧
      ∀ a b, order b a = (order a b).swap) ∧
    (∀ a b, (order a b).isLE → (moduleOrder a b).isLE) ∧
    (∀ a b, moduleOrder a b = compare (Text.bytes a.moduleName) (Text.bytes b.moduleName)) ∧
    ∀ cs, SortedBy order cs (sort cs) ∧ ∀ ds : List Coordinate, cs.Perm ds →
      (sort cs).map render = (sort ds).map render ∧
        (sort cs).map version = (sort ds).map version := by
  refine ⟨⟨fun _ => Std.ReflCmp.compare_self, fun _ _ _ => TransCmp.isLE_trans,
    fun a b => Bool.or_eq_true_iff.1 (isLE_total a b), fun _ _ => Std.OrientedCmp.eq_swap⟩,
    fun _ _ => moduleOrder_isLE, moduleOrder_eq, fun cs => ⟨sortedBy_sort cs, fun ds h => ?_⟩⟩
  have hsame := identity_sort_perm h
  constructor
  · have hrender := congrArg (List.map renderIdentity) hsame
    rwa [List.map_map, List.map_map] at hrender
  · have hversion := congrArg (List.map Prod.snd) hsame
    rwa [List.map_map, List.map_map] at hversion

/-- Two coordinates of one module name that is cut at different colons, one module in two versions, and
a group that begins with another group. -/
def shuffled : List Coordinate :=
  [⟨"a:b", "c", .fixed "1"⟩, ⟨"org.a", "x", .inherited "v"⟩, ⟨"a", "b:c", .fixed "1"⟩,
    ⟨"org.a", "x", .fixed "w"⟩, ⟨"org.a-b", "x", .fixed "1"⟩]

/-- The two coordinates that the order does not tell apart stand the other way round, and nothing of it
is seen in the texts. -/
theorem shuffled_canonical :
    let longer : Coordinate := ⟨"org.a-b", "x", .fixed "1"⟩
    let fixed : Coordinate := ⟨"org.a", "x", .fixed "w"⟩
    let inherited : Coordinate := ⟨"org.a", "x", .inherited "v"⟩
    ((order longer fixed).isLE ∧ (order fixed inherited).isLE ∧
        (order longer inherited).isLE ∧ (moduleOrder longer inherited).isLE) ∧
      shuffled.Perm shuffled.reverse ∧ sort shuffled ≠ sort shuffled.reverse ∧
      (sort shuffled.reverse).map render =
        ["a:b:c:1", "a:b:c:1", "org.a-b:x:1", "org.a:x:w", "org.a:x:$\x7bv\x7d"] := by
  intro longer fixed inherited
  obtain ⟨⟨-, htrans, -, -⟩, hrefines, -, hsort⟩ := sort_canonical
  have hfirst : (order longer fixed).isLE := by decide +kernel
  have hsecond : (order fixed inherited).isLE := by decide +kernel
  have hends := htrans _ _ _ hfirst hsecond
  have hperm : shuffled.Perm shuffled.reverse := (List.reverse_perm shuffled).symm
  have hsorted : sort shuffled =
      [⟨"a:b", "c", .fixed "1"⟩, ⟨"a", "b:c", .fixed "1"⟩, longer, fixed, inherited] := by
    rw [sort, mergeSort_eq_insertionSort]
    decide +kernel
  have hreversed : sort shuffled.reverse =
      [⟨"a", "b:c", .fixed "1"⟩, ⟨"a:b", "c", .fixed "1"⟩, longer, fixed, inherited] := by
    rw [sort, mergeSort_eq_insertionSort]
    decide +kernel
  refine ⟨⟨hfirst, hsecond, hends, hrefines _ _ hends⟩, hperm, ?_, ?_⟩
  · rw [hsorted, hreversed]
    decide +kernel
  · rw [← ((hsort shuffled).2 _ hperm).1, hsorted]
    decide +kernel

end Coordinate
end BillOfMaterials
