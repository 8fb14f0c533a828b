import Mathlib.Data.List.Nodup
import Mathlib.Order.Lattice

/-!
# Sorting by a key

What a sort by a key of a linear order gives, and that it has one result when the keys differ.
-/
namespace Dockgraph.SortBy

variable {α β : Type} [LinearOrder β] (key : α → β)

theorem pairwise_le (xs : List α) :
    (xs.mergeSort fun a b => key a ≤ key b).Pairwise fun a b => key a ≤ key b := by
  have sorted := @List.pairwise_mergeSort α (fun a b => decide (key a ≤ key b))
    (fun a b c ab bc => decide_eq_true ((of_decide_eq_true ab).trans (of_decide_eq_true bc)))
    (fun a b => by simpa using le_total (key a) (key b)) xs
  exact sorted.imp of_decide_eq_true

/-- Elements with different keys are sorted strictly. -/
theorem pairwise_lt {xs : List α} (distinct : (xs.map key).Nodup) :
    (xs.mergeSort fun a b => key a ≤ key b).Pairwise fun a b => key a < key b := by
  have apart : (xs.mergeSort fun a b => key a ≤ key b).Pairwise fun a b => key a ≠ key b :=
    List.pairwise_map.mp (((List.mergeSort_perm xs _).map key).nodup_iff.mpr distinct)
  exact ((pairwise_le key xs).and apart).imp fun both => lt_of_le_of_ne both.1 both.2

theorem mergeSort_eq {xs sorted : List α} (perm : xs.Perm sorted)
    (ascending : sorted.Pairwise fun a b => key a < key b) :
    (xs.mergeSort fun a b => key a ≤ key b) = sorted := by
  have distinct : (xs.map key).Nodup :=
    (perm.map key).nodup_iff.mpr (List.pairwise_map.mpr (ascending.imp fun less => less.ne))
  exact ((List.mergeSort_perm _ _).trans perm).eq_of_pairwise
    (fun a b _ _ less more => absurd more (lt_asymm less)) (pairwise_lt key distinct) ascending

/-- Where the key tells elements apart, the result does not depend on the order they are in. -/
theorem mergeSort_eq_of_perm (injective : Function.Injective key) {xs ys : List α} (perm : xs.Perm ys) :
    (xs.mergeSort fun a b => key a ≤ key b) = ys.mergeSort fun a b => key a ≤ key b :=
  ((List.mergeSort_perm _ _).trans (perm.trans (List.mergeSort_perm _ _).symm)).eq_of_pairwise
    (fun _ _ _ _ less more => injective (le_antisymm less more)) (pairwise_le key xs) (pairwise_le key ys)

end Dockgraph.SortBy
