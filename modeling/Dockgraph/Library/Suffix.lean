import Mathlib.Data.List.Infix
import Mathlib.Order.Lattice

/-!
# Longest suffixes

The longest suffix of a list with a property, for properties that shorter pieces of a list
inherit. A bounded buffer of the newest entries is one.
-/
namespace Dockgraph.Suffix

variable {α : Type}

/-- A suffix that is not everything has an element in front of it. -/
theorem exists_front {xs ys : List α} (suffix : ys <:+ xs) (proper : ys ≠ xs) :
    ∃ pre x, xs = pre ++ x :: ys := by
  obtain ⟨front, rfl⟩ := suffix
  rcases List.eq_nil_or_concat front with rfl | ⟨pre, x, rfl⟩
  · exact absurd rfl proper
  · exact ⟨pre, x, by simp⟩

/-- In an ascending list a suffix leaves out only what is below all it holds. -/
theorem lt_of_not_mem_suffix {r : α → α → Prop} {xs ys : List α} (ascending : xs.Pairwise r)
    (suffix : ys <:+ xs) {d : α} (member : d ∈ xs) (out : d ∉ ys) {y : α} (kept : y ∈ ys) : r d y := by
  obtain ⟨front, rfl⟩ := suffix
  rcases List.mem_append.mp member with first | last
  · exact (List.pairwise_append.mp ascending).2.2 d first y kept
  · exact absurd last out

/-! ## Ascending lists -/

section Ascending

variable {β : Type} [LinearOrder β] {key : α → β} {xs : List α}

theorem filter_le_append (ascending : xs.Pairwise fun a b => key a < key b) (bound : β) :
    xs.filter (fun x => key x ≤ bound) =
      xs.filter (fun x => key x < bound) ++ xs.filter fun x => key x = bound := by
  induction xs with
  | nil => rfl
  | cons x xs ih =>
    rw [List.pairwise_cons] at ascending
    rw [List.filter_cons, List.filter_cons, List.filter_cons, ih ascending.2]
    rcases lt_trichotomy (key x) bound with lt | same | gt
    · simp [lt, lt.le, lt.ne]
    · -- every later key is past the bound
      have none : xs.filter (fun y => key y < bound) = [] :=
        List.filter_eq_nil_iff.mpr fun y member => by simpa [same] using (ascending.1 y member).le
      simp [same, none]
    · simp [not_le.mpr gt, gt.not_gt, gt.ne']

/-- A key occurs at most once. -/
theorem filter_eq_single (ascending : xs.Pairwise fun a b => key a < key b) (bound : β) :
    xs.filter (fun x => key x = bound) = [] ∨
      ∃ x ∈ xs, key x = bound ∧ xs.filter (fun x => key x = bound) = [x] := by
  have apart := ascending.filter fun x => key x = bound
  have hits (x : α) (member : x ∈ xs.filter fun x => key x = bound) : x ∈ xs ∧ key x = bound := by
    simpa using member
  generalize xs.filter (fun x => key x = bound) = found at apart hits
  rcases found with _ | ⟨x, _ | ⟨y, rest⟩⟩
  · exact .inl rfl
  · obtain ⟨member, same⟩ := hits x List.mem_cons_self
    exact .inr ⟨x, member, same, rfl⟩
  · have less := (List.pairwise_cons.mp apart).1 y List.mem_cons_self
    have first := (hits x List.mem_cons_self).2
    have second := (hits y (List.mem_cons_of_mem x List.mem_cons_self)).2
    exact absurd less (by rw [first, second]; exact lt_irrefl bound)

theorem dropWhile_lt_of_le (sorted : xs.Pairwise fun a b => key a ≤ key b) (bound : β) :
    xs.dropWhile (fun x => key x < bound) = xs.filter fun x => bound ≤ key x := by
  induction xs with
  | nil => rfl
  | cons x xs ih =>
    rw [List.pairwise_cons] at sorted
    by_cases low : key x < bound
    · rw [List.dropWhile_cons, if_pos (decide_eq_true low), ih sorted.2,
        List.filter_cons_of_neg (by simpa using low)]
    · -- what follows is not below the bound either
      have all : ∀ y ∈ x :: xs, decide (bound ≤ key y) = true := by
        intro y member
        rcases List.mem_cons.mp member with rfl | member
        · exact decide_eq_true (not_lt.mp low)
        · exact decide_eq_true ((not_lt.mp low).trans (sorted.1 y member))
      rw [List.dropWhile_cons, if_neg (by simpa using low), List.filter_eq_self.mpr all]

theorem takeWhile_lt_of_le (sorted : xs.Pairwise fun a b => key a ≤ key b) (bound : β) :
    xs.takeWhile (fun x => key x < bound) = xs.filter fun x => key x < bound := by
  induction xs with
  | nil => rfl
  | cons x xs ih =>
    rw [List.pairwise_cons] at sorted
    by_cases low : key x < bound
    · rw [List.takeWhile_cons, if_pos (decide_eq_true low), ih sorted.2,
        List.filter_cons_of_pos (by simpa using low)]
    · have none : ∀ y ∈ x :: xs, ¬decide (key y < bound) = true := by
        intro y member
        rcases List.mem_cons.mp member with rfl | member
        · simpa using low
        · simpa using (not_lt.mp low).trans (sorted.1 y member)
      rw [List.takeWhile_cons, if_neg (by simpa using low), List.filter_eq_nil_iff.mpr none]

/-- An ascending list is its members. -/
theorem eq_of_mem_iff {ys : List α} (hx : xs.Pairwise fun a b => key a < key b)
    (hy : ys.Pairwise fun a b => key a < key b) (same : ∀ x, x ∈ xs ↔ x ∈ ys) : xs = ys := by
  have nodup : ∀ {zs : List α}, zs.Pairwise (fun a b => key a < key b) → zs.Nodup := fun sorted =>
    sorted.imp fun lt equal => lt.ne (congrArg key equal)
  have perm := (List.perm_ext_iff_of_nodup (nodup hx) (nodup hy)).mpr same
  exact perm.eq_of_pairwise (fun a b _ _ lt gt => absurd lt (lt_asymm gt)) hx hy

/-- What is above a member of an ascending list is what comes after it. -/
theorem filter_lt_eq {pre post : List α} {x : α}
    (ascending : (pre ++ x :: post).Pairwise fun a b => key a < key b) :
    (pre ++ x :: post).filter (fun y => key x < key y) = post := by
  obtain ⟨-, rest, below⟩ := List.pairwise_append.mp ascending
  have none : pre.filter (fun y => key x < key y) = [] :=
    List.filter_eq_nil_iff.mpr fun y member => by simpa using (below y member x List.mem_cons_self).le
  have all : post.filter (fun y => key x < key y) = post :=
    List.filter_eq_self.mpr fun y member => by simpa using (List.pairwise_cons.mp rest).1 y member
  rw [List.filter_append, none, List.nil_append, List.filter_cons_of_neg (by simp), all]

theorem dropWhile_lt (ascending : xs.Pairwise fun a b => key a < key b) (bound : β) :
    xs.dropWhile (fun x => key x < bound) = xs.filter fun x => bound ≤ key x :=
  dropWhile_lt_of_le (ascending.imp le_of_lt) bound

end Ascending

/-! ## The newest entries -/

/-- The last `n` entries. -/
def newest (n : Nat) (xs : List α) : List α := xs.drop (xs.length - n)

theorem newest_suffix (n : Nat) (xs : List α) : newest n xs <:+ xs := List.drop_suffix _ xs

theorem newest_of_length_le {n : Nat} {xs : List α} (short : xs.length ≤ n) : newest n xs = xs := by
  rw [newest, Nat.sub_eq_zero_of_le short, List.drop_zero]

theorem length_newest (n : Nat) (xs : List α) : (newest n xs).length = min n xs.length := by
  rw [newest, List.length_drop]
  omega

theorem newest_append_singleton (n : Nat) (xs : List α) (x : α) :
    newest (n + 1) (xs ++ [x]) = newest n xs ++ [x] := by
  have index : (xs ++ [x]).length - (n + 1) = xs.length - n := by
    rw [List.length_append, List.length_singleton]
    omega
  rw [newest, index, List.drop_append_of_le_length (Nat.sub_le _ _), newest]

theorem newest_append {n : Nat} (xs : List α) {ys : List α} (short : ys.length ≤ n) :
    newest n (xs ++ ys) = newest (n - ys.length) xs ++ ys := by
  have index : (xs ++ ys).length - n = xs.length - (n - ys.length) := by
    rw [List.length_append]
    omega
  rw [newest, index, List.drop_append_of_le_length (Nat.sub_le _ _), newest]

/-! ## The longest one -/

variable {p : List α → Prop}

def longestSuffix (p : List α → Prop) [DecidablePred p] : List α → List α
  | [] => []
  | x :: xs => if p (x :: xs) then x :: xs else longestSuffix p xs

/-- Every piece of a list with the property has it. -/
def Hereditary (p : List α → Prop) : Prop := ∀ ⦃xs ys : List α⦄, xs <:+: ys → p ys → p xs

variable [DecidablePred p]

theorem longestSuffix_self {xs : List α} (holds : p xs) : longestSuffix p xs = xs := by
  cases xs with
  | nil => rfl
  | cons x xs => exact if_pos holds

theorem longestSuffix_suffix (xs : List α) : longestSuffix p xs <:+ xs := by
  induction xs with
  | nil => exact List.suffix_refl []
  | cons x xs ih =>
    rw [longestSuffix]
    split
    · exact List.suffix_refl _
    · exact ih.trans (List.suffix_cons x xs)

theorem longestSuffix_holds (empty : p []) (xs : List α) : p (longestSuffix p xs) := by
  induction xs with
  | nil => exact empty
  | cons x xs ih =>
    rw [longestSuffix]
    split
    · assumption
    · exact ih

theorem longestSuffix_ne_nil (single : ∀ x, p [x]) {xs : List α} (some : xs ≠ []) :
    longestSuffix p xs ≠ [] := by
  induction xs with
  | nil => exact absurd rfl some
  | cons x xs ih =>
    rw [longestSuffix]
    split
    · exact List.cons_ne_nil x xs
    next fails =>
      cases xs with
      | nil => exact absurd (single x) fails
      | cons y ys => exact ih (List.cons_ne_nil y ys)

/-- Nothing in front of a piece that fails is kept. -/
theorem longestSuffix_append_cons (hereditary : Hereditary p) {x : α} {ys : List α}
    (fails : ¬p (x :: ys)) (pre : List α) :
    longestSuffix p (pre ++ x :: ys) = longestSuffix p ys := by
  induction pre with
  | nil => exact if_neg fails
  | cons w pre ih =>
    have longer : ¬p (w :: (pre ++ x :: ys)) := fun holds =>
      fails (hereditary (List.suffix_append (w :: pre) (x :: ys)).isInfix holds)
    rw [List.cons_append, longestSuffix, if_neg longer, ih]

/-- Cutting the front early does not change what is kept in the end. -/
theorem longestSuffix_append (hereditary : Hereditary p) (xs ys : List α) :
    longestSuffix p (longestSuffix p xs ++ ys) = longestSuffix p (xs ++ ys) := by
  induction xs with
  | nil => rfl
  | cons x xs ih =>
    by_cases whole : p (x :: xs)
    · rw [longestSuffix_self whole]
    · have fails : ¬p (x :: (xs ++ ys)) := fun holds =>
        whole (hereditary (List.prefix_append (x :: xs) ys).isInfix holds)
      rw [longestSuffix, if_neg whole, ih, List.cons_append, longestSuffix, if_neg fails]

/-- What is in front of the longest suffix does not fit. -/
theorem not_holds_cons {xs pre ys : List α} {x : α}
    (cut : xs = pre ++ x :: ys) (kept : longestSuffix p xs = ys) : ¬p (x :: ys) := by
  subst cut
  intro holds
  induction pre with
  | nil =>
    rw [List.nil_append, longestSuffix_self holds] at kept
    exact List.cons_ne_self x ys kept
  | cons w pre ih =>
    rw [List.cons_append, longestSuffix] at kept
    split at kept
    · have lengths := congrArg List.length kept
      simp only [List.length_cons, List.length_append] at lengths
      omega
    · exact ih kept

/-- The longest suffix reaches back to an entry just when the suffix from there on holds. -/
theorem mem_longestSuffix (hereditary : Hereditary p) {pre post : List α} {x : α}
    (nodup : (pre ++ x :: post).Nodup) : x ∈ longestSuffix p (pre ++ x :: post) ↔ p (x :: post) := by
  constructor
  · intro member
    by_contra fails
    rw [longestSuffix_append_cons hereditary fails] at member
    have later := (longestSuffix_suffix post).subset member
    exact (List.nodup_cons.mp (List.nodup_append.mp nodup).2.1).1 later
  · intro holds
    clear nodup
    induction pre with
    | nil =>
      rw [List.nil_append, longestSuffix_self holds]
      exact List.mem_cons_self
    | cons w pre ih =>
      rw [List.cons_append, longestSuffix]
      split
      · simp
      · exact ih

/-- At most so many entries that hold. -/
theorem longestSuffix_length_and (n : Nat) (xs : List α) :
    longestSuffix (fun ys => ys.length ≤ n ∧ p ys) xs = longestSuffix p (newest n xs) := by
  induction xs with
  | nil => simp [longestSuffix, newest]
  | cons x xs ih =>
    rw [longestSuffix]
    by_cases short : (x :: xs).length ≤ n
    · rw [newest_of_length_le short]
      rw [List.length_cons] at short
      rw [newest_of_length_le (by omega)] at ih
      rw [longestSuffix, ih]
      simp [short]
    · rw [if_neg fun both => short both.1, ih]
      congr 1
      rw [List.length_cons] at short
      rw [newest, newest, List.length_cons, Nat.succ_sub (by omega), List.drop_succ_cons]

end Dockgraph.Suffix
