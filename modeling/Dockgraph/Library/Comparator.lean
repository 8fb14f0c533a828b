import Mathlib.Algebra.Order.Group.Int

/-!
# Comparison functions

A comparison function of a sort returns a negative number, zero or a positive number. Comparisons are
combined by looking at the next one where the one before is zero.
-/
namespace Dockgraph.Comparator

variable {α β : Type}

/-- The next comparison decides where this one does not. -/
def orElse (m n : Int) : Int := if m = 0 then n else m

theorem orElse_le_zero {m n : Int} (decided : orElse m n ≤ 0) : m ≤ 0 := by
  unfold orElse at decided
  split at decided <;> omega

theorem orElse_eq_zero {m n : Int} : orElse m n = 0 ↔ m = 0 ∧ n = 0 := by
  unfold orElse
  split <;> simp_all

/-- Absent values come last. -/
def noneLast (cmp : α → α → Int) : Option α → Option α → Int
  | none, none => 0
  | none, some _ => 1
  | some _, none => -1
  | some a, some b => cmp a b

/-- The comparison of an order. -/
def sign (less : α → α → Prop) [DecidableRel less] (a b : α) : Int :=
  if less a b then -1 else if less b a then 1 else 0

/-- A comparison of a total preorder. -/
structure Consistent (cmp : α → α → Int) : Prop where
  swap : ∀ a b, 0 < cmp a b ↔ cmp b a < 0
  trans : ∀ a b c, cmp a b ≤ 0 → cmp b c ≤ 0 → cmp a c ≤ 0

/-- A comparison of a total order. -/
structure Total (cmp : α → α → Int) : Prop extends Consistent cmp where
  eq_of_zero : ∀ a b, cmp a b = 0 → a = b

namespace Consistent

variable {cmp next : α → α → Int} {a b c : α}

theorem zero_swap (consistent : Consistent cmp) : cmp a b = 0 ↔ cmp b a = 0 := by
  have forth := consistent.swap a b
  have back := consistent.swap b a
  omega

theorem refl (consistent : Consistent cmp) : cmp a a = 0 := by
  have same := consistent.swap a a
  omega

theorem total (consistent : Consistent cmp) : cmp a b ≤ 0 ∨ cmp b a ≤ 0 := by
  have forth := consistent.swap a b
  omega

theorem antisymm (consistent : Consistent cmp) (ab : cmp a b ≤ 0) (ba : cmp b a ≤ 0) : cmp a b = 0 := by
  have back := consistent.swap b a
  omega

/-- What stands between equals is equal to them. -/
theorem zero_between (consistent : Consistent cmp) (ab : cmp a b ≤ 0) (bc : cmp b c ≤ 0) (ac : cmp a c = 0) :
    cmp a b = 0 ∧ cmp b c = 0 := by
  have ca : cmp c a ≤ 0 := (consistent.zero_swap.mp ac).le
  exact ⟨consistent.antisymm ab (consistent.trans b c a bc ca), consistent.antisymm bc (consistent.trans c a b ca ab)⟩

/-- One comparison after another. -/
theorem orElse (first : Consistent cmp) (second : Consistent next) :
    Consistent fun a b => orElse (cmp a b) (next a b) where
  swap a b := by
    have swapped := first.swap a b
    have back := first.swap b a
    have later := second.swap a b
    unfold Comparator.orElse
    split <;> split <;> omega
  trans a b c ab bc := by
    have leAB : cmp a b ≤ 0 := orElse_le_zero ab
    have leBC : cmp b c ≤ 0 := orElse_le_zero bc
    have leAC := first.trans a b c leAB leBC
    by_cases equal : cmp a c = 0
    · -- then all three are equal, and the next comparison decides
      obtain ⟨zeroAB, zeroBC⟩ := first.zero_between leAB leBC equal
      unfold Comparator.orElse at ab bc ⊢
      rw [if_pos zeroAB] at ab
      rw [if_pos zeroBC] at bc
      rw [if_pos equal]
      exact second.trans a b c ab bc
    · unfold Comparator.orElse
      rwa [if_neg equal]

/-- A comparison of what a function gives. -/
theorem comap {cmp : β → β → Int} (consistent : Consistent cmp) (f : α → β) :
    Consistent fun a b => cmp (f a) (f b) where
  swap a b := consistent.swap (f a) (f b)
  trans a b c := consistent.trans (f a) (f b) (f c)

theorem noneLast (consistent : Consistent cmp) : Consistent (noneLast cmp) where
  swap a b := by
    cases a with
    | none => cases b <;> simp [Comparator.noneLast]
    | some a =>
      cases b with
      | none => simp [Comparator.noneLast]
      | some b => exact consistent.swap a b
  trans a b c ab bc := by
    cases c with
    | none => cases a <;> simp [Comparator.noneLast]
    | some c =>
      cases b with
      | none => simp [Comparator.noneLast] at bc
      | some b =>
        cases a with
        | none => simp [Comparator.noneLast] at ab
        | some a => exact consistent.trans a b c ab bc

/-- What a sort by the comparison gives. -/
theorem pairwise_mergeSort (consistent : Consistent cmp) (xs : List α) :
    (xs.mergeSort fun a b => cmp a b ≤ 0).Pairwise fun a b => cmp a b ≤ 0 := by
  have sorted := @List.pairwise_mergeSort α (fun a b => decide (cmp a b ≤ 0))
    (fun a b c ab bc => decide_eq_true (consistent.trans a b c (of_decide_eq_true ab) (of_decide_eq_true bc)))
    (fun a b => by simpa using consistent.total) xs
  exact sorted.imp of_decide_eq_true

end Consistent

theorem Total.noneLast_eq_zero {cmp : α → α → Int} (total : Total cmp) {a b : Option α} :
    noneLast cmp a b = 0 ↔ a = b := by
  cases a with
  | none => cases b <;> simp [noneLast]
  | some a =>
    cases b with
    | none => simp [noneLast]
    | some b =>
      rw [noneLast, Option.some.injEq]
      constructor
      · exact total.eq_of_zero a b
      · rintro rfl
        exact total.refl

theorem consistent_sub : Consistent fun a b : Int => a - b where
  swap a b := by omega
  trans a b c ab bc := by omega

theorem total_sign [LinearOrder α] [DecidableRel fun a b : α => a < b] : Total (sign fun a b : α => a < b) where
  swap a b := by
    unfold sign
    rcases lt_trichotomy a b with less | rfl | more
    · simp [less, less.not_gt]
    · simp
    · simp [more, more.not_gt]
  trans a b c ab bc := by
    have le {a b : α} : sign (fun a b : α => a < b) a b ≤ 0 ↔ a ≤ b := by
      unfold sign
      rcases lt_trichotomy a b with less | rfl | more
      · simp [less, less.le]
      · simp
      · simp [more, more.not_gt]
    rw [le] at ab bc ⊢
    exact ab.trans bc
  eq_of_zero a b zero := by
    unfold sign at zero
    rcases lt_trichotomy a b with less | rfl | more
    · simp [less] at zero
    · rfl
    · simp [more, more.not_gt] at zero

end Dockgraph.Comparator
