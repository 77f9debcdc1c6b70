import BillOfMaterials.Binary
import BillOfMaterials.Coordinate
import BillOfMaterials.Selection
import Mathlib.Data.List.Sort

/-!
# Sorting

Archives, binaries and coordinates are sorted by orders that need not tell different things apart.
What sorting does is therefore said in three parts: nothing is lost or doubled, the result is in
order, and what the order does not tell apart keeps its order.
-/
namespace BillOfMaterials

/-- `ys` has the elements of `xs` in order, those that the order does not tell apart as they stand
in `xs`. -/
structure SortedBy {α : Type} (order : α → α → Ordering) (xs ys : List α) : Prop where
  perm : ys.Perm xs
  ordered : ys.Pairwise fun a b => (order a b).isLE
  stable : ∀ a, ys.filter (fun b => order a b == .eq) = xs.filter fun b => order a b == .eq

theorem isLE_total {α : Type} {cmp : α → α → Ordering} [Std.OrientedCmp cmp] (a b : α) :
    ((cmp a b).isLE || (cmp b a).isLE) = true := by
  have hswap : cmp b a = (cmp a b).swap := Std.OrientedCmp.eq_swap
  rw [hswap]
  cases cmp a b <;> rfl

namespace SortedBy

variable {α : Type} {order : α → α → Ordering} {xs ys : List α}

theorem mergeSort [Std.TransCmp order] (xs : List α) :
    SortedBy order xs (xs.mergeSort fun a b => (order a b).isLE) := by
  have trans : ∀ a b c, (order a b).isLE = true → (order b c).isLE = true →
      (order a c).isLE = true := fun _ _ _ => Std.TransCmp.isLE_trans
  have total : ∀ a b, ((order a b).isLE || (order b a).isLE) = true := isLE_total
  have hperm := List.mergeSort_perm xs fun a b => (order a b).isLE
  refine ⟨hperm, List.pairwise_mergeSort trans total xs, fun a => ?_⟩
  -- The elements of one class are in order as they stand, so sorting keeps them as they stand.
  have hclass : (xs.filter fun b => order a b == .eq).Pairwise fun b c => (order b c).isLE := by
    refine List.pairwise_of_forall_mem_list ?_
    intro b hb c hc
    have hab : order a b = .eq := by simpa using (List.mem_filter.1 hb).2
    have hac : order a c = .eq := by simpa using (List.mem_filter.1 hc).2
    rw [Std.TransCmp.eq_trans (Std.OrientedCmp.eq_symm hab) hac]
    rfl
  have hsub := (List.sublist_mergeSort trans total hclass List.filter_sublist).filter
    fun b => order a b == .eq
  simp only [List.filter_filter, Bool.and_self] at hsub
  have hlength := (hperm.filter fun b => order a b == .eq).length_eq
  exact (hsub.eq_of_length hlength.symm).symm

/-- What is left out may be left out before or after sorting. -/
theorem filter (h : SortedBy order xs ys) (p : α → Bool) :
    SortedBy order (xs.filter p) (ys.filter p) := by
  refine ⟨h.perm.filter p, h.ordered.filter p, fun a => ?_⟩
  have hswap : ∀ zs : List α, (zs.filter p).filter (fun b => order a b == .eq) =
      (zs.filter fun b => order a b == .eq).filter p := by
    intro zs
    rw [List.filter_filter, List.filter_filter]
    congr 1
    funext b
    exact Bool.and_comm _ _
  rw [hswap, hswap, h.stable a]

/-- Sorting lists of the same keys gives the same keys, where the order is that of the keys and tells
all keys apart. -/
theorem map_key_of_keys {κ : Type} {cmp : κ → κ → Ordering} [Std.TransCmp cmp] [Std.LawfulEqCmp cmp]
    {key : α → κ} {xs' ys' : List α} (horder : ∀ a b, order a b = cmp (key a) (key b))
    (h : SortedBy order xs ys) (h' : SortedBy order xs' ys')
    (hkeys : (xs.map key).Perm (xs'.map key)) : ys.map key = ys'.map key := by
  have hordered {zs ws : List α} (hz : SortedBy order zs ws) :
      (ws.map key).Pairwise fun k l => (cmp k l).isLE := by
    rw [List.pairwise_map]
    exact hz.ordered.imp fun hle => horder _ _ ▸ hle
  have hsame : (ys.map key).Perm (ys'.map key) :=
    ((h.perm.map key).trans hkeys).trans (h'.perm.symm.map key)
  refine hsame.eq_of_pairwise ?_ (hordered h) (hordered h')
  intro k l _ _ hkl hlk
  exact Std.LawfulEqCmp.eq_of_compare (Std.OrientedCmp.isLE_antisymm hkl hlk)

/-- Sorting lists of the same elements gives the same keys. The elements themselves may still stand
differently. -/
theorem map_key {κ : Type} {cmp : κ → κ → Ordering} [Std.TransCmp cmp] [Std.LawfulEqCmp cmp]
    {key : α → κ} {xs' ys' : List α} (horder : ∀ a b, order a b = cmp (key a) (key b))
    (h : SortedBy order xs ys) (h' : SortedBy order xs' ys') (hperm : xs.Perm xs') :
    ys.map key = ys'.map key :=
  map_key_of_keys horder h h' (hperm.map key)

end SortedBy

theorem orderedInsert_append {α : Type} {r : α → α → Prop} [DecidableRel r] {a : α}
    {front back : List α} (hfront : ∀ b ∈ front, ¬r a b) (hback : ∀ b ∈ back, r a b) :
    (front ++ back).orderedInsert r a = front ++ a :: back := by
  induction front with
  | nil =>
    cases back with
    | nil => rfl
    | cons b back => exact List.orderedInsert_cons_of_le r back (hback b List.mem_cons_self)
  | cons b front ih =>
    rw [List.cons_append, List.orderedInsert_of_not_le r _ (hfront b List.mem_cons_self),
      ih fun c hc => hfront c (List.mem_cons_of_mem _ hc)]
    rfl

/-- Sorting is insertion, which goes down the list, whether or not the order tells elements apart. -/
theorem mergeSort_eq_insertionSort {α : Type} {order : α → α → Ordering} [Std.TransCmp order]
    (xs : List α) :
    xs.mergeSort (fun a b => (order a b).isLE) = xs.insertionSort fun a b => (order a b).isLE := by
  have trans : ∀ a b c, (order a b).isLE = true → (order b c).isLE = true →
      (order a c).isLE = true := fun _ _ _ => Std.TransCmp.isLE_trans
  have total : ∀ a b, ((order a b).isLE || (order b a).isLE) = true := isLE_total
  induction xs with
  | nil => exact List.mergeSort_nil
  | cons a xs ih =>
    obtain ⟨front, back, hsorted, hrest, hfront⟩ := List.mergeSort_cons trans total a xs
    have hordered := List.pairwise_mergeSort trans total (a :: xs)
    rw [hsorted, List.pairwise_append, List.pairwise_cons] at hordered
    rw [hsorted, List.insertionSort_cons, ← ih, hrest,
      orderedInsert_append (fun b hb => by simpa using hfront b hb) hordered.2.1.1]

/-! ## The orders in use -/

/-- A common beginning does not count. -/
theorem compare_append_left {α : Type} [Ord α] [Std.ReflOrd α] (front as bs : List α) :
    compare (front ++ as) (front ++ bs) = compare as bs := by
  induction front with
  | nil => rfl
  | cons a front ih =>
    rw [List.cons_append, List.cons_append, List.compare_cons_cons, ih,
      Std.ReflOrd.compare_self]
    rfl

def Path.Component.bytes : Component → Bytes
  | .name bytes => bytes
  | _ => []

theorem Path.Component.order_eq :
    order = compareLex (compareOn rank) (compareOn bytes) := by
  funext a b
  cases a <;> cases b <;> rfl

instance : Std.TransCmp Path.Component.order := by
  rw [Path.Component.order_eq]
  infer_instance

instance : Std.LawfulEqCmp Path.Component.order where
  eq_of_compare := by
    intro a b h
    cases a <;> cases b <;> first | rfl | cases h | skip
    exact congrArg Path.Component.name (Std.LawfulEqCmp.eq_of_compare h)

instance : Std.TransCmp Path.order where
  eq_swap := by
    intro p q
    have h : Std.OrientedCmp (List.compareLex Path.Component.order) := inferInstance
    exact h.eq_swap
  isLE_trans := by
    intro p q r
    have h : Std.TransCmp (List.compareLex Path.Component.order) := inferInstance
    exact h.isLE_trans

instance : Std.TransCmp Coordinate.moduleOrder :=
  inferInstanceAs (Std.TransCmp (compareOn Coordinate.moduleBytes))

instance : Std.TransCmp Text.order :=
  inferInstanceAs (Std.TransCmp (compareOn Text.bytes))

instance : Std.LawfulEqCmp Text.order where
  eq_of_compare h := Text.bytes_injective (Std.LawfulEqCmp.eq_of_compare h)

/-- The order of what has a text, by that text. -/
instance {α : Type} (text : α → String) : Std.TransCmp fun a b => Text.order (text a) (text b) :=
  inferInstanceAs (Std.TransCmp (compareOn fun a => Text.bytes (text a)))

end BillOfMaterials
