import Mathlib.Data.List.TakeDrop
import Mathlib.Data.Nat.Basic

/-!
# Circular buffers

A fixed number of cells, written one after another and then again from the first. What a buffer
holds is always the newest of the entries ever written to it.
-/
namespace Dockgraph

/-- `head` is the cell written next, `count` how many cells hold an entry. -/
structure Ring (α : Type) (capacity : Nat) where
  buf : Vector α capacity
  head : Nat
  count : Nat
  head_lt : head < capacity
  count_le : count ≤ capacity

namespace Ring

variable {α : Type} {capacity : Nat}

def empty (blank : α) (positive : 0 < capacity) : Ring α capacity :=
  { buf := .replicate capacity blank, head := 0, count := 0, head_lt := positive, count_le := Nat.le_of_lt positive }

/-- Writes the next cell, over the oldest entry when every cell holds one. -/
def push (r : Ring α capacity) (x : α) : Ring α capacity :=
  { buf := r.buf.set r.head x r.head_lt
    head := (r.head + 1) % capacity
    count := if r.count < capacity then r.count + 1 else r.count
    head_lt := Nat.mod_lt _ (Nat.zero_lt_of_lt r.head_lt)
    count_le := by
      have le := r.count_le
      split <;> omega }

/-- The cell written `i` entries before the last. -/
def back (r : Ring α capacity) (i : Nat) : Nat := (r.head + capacity - 1 - i) % capacity

theorem back_lt (r : Ring α capacity) (i : Nat) : r.back i < capacity :=
  Nat.mod_lt _ (Nat.zero_lt_of_lt r.head_lt)

/-- The last `n` entries, walking backwards from the newest. -/
def newest (r : Ring α capacity) (n : Nat) : List α :=
  (List.range (min n r.count)).map fun i => r.buf.get ⟨r.back i, r.back_lt i⟩

/-- All a buffer holds. -/
def entries (r : Ring α capacity) : List α := r.newest r.count

@[simp] theorem length_newest (r : Ring α capacity) (n : Nat) : (r.newest n).length = min n r.count := by
  simp [newest]

@[simp] theorem length_entries (r : Ring α capacity) : r.entries.length = r.count := by simp [entries]

theorem newest_eq_take (r : Ring α capacity) (n : Nat) : r.newest n = r.entries.take n := by
  simp [entries, newest, ← List.map_take, List.take_range]

@[simp] theorem entries_empty (blank : α) (positive : 0 < capacity) : (empty blank positive).entries = [] := by
  simp [entries, newest, empty]

/-! ## A write -/

@[simp] theorem back_push_zero (r : Ring α capacity) (x : α) : (r.push x).back 0 = r.head := by
  have head := r.head_lt
  simp only [back, push, Nat.sub_zero]
  rcases Nat.lt_or_ge (r.head + 1) capacity with inside | wraps
  · rw [Nat.mod_eq_of_lt inside]
    have shift : r.head + 1 + capacity - 1 = r.head + capacity := by omega
    rw [shift, Nat.add_mod_right, Nat.mod_eq_of_lt head]
  · have full : r.head + 1 = capacity := by omega
    rw [full, Nat.mod_self, Nat.zero_add, Nat.mod_eq_of_lt (by omega)]
    omega

/-- What was the newest is one further back. -/
theorem back_push_succ (r : Ring α capacity) (x : α) {i : Nat} (inside : i + 1 < capacity) :
    (r.push x).back (i + 1) = r.back i := by
  have head := r.head_lt
  simp only [back, push]
  rcases Nat.lt_or_ge (r.head + 1) capacity with within | wraps
  · rw [Nat.mod_eq_of_lt within]
    congr 1
    omega
  · have full : r.head + 1 = capacity := by omega
    rw [full, Nat.mod_self]
    have shift : r.head + capacity - 1 - i = 0 + capacity - 1 - (i + 1) + capacity := by omega
    rw [shift, Nat.add_mod_right]

/-- An older entry that is kept is not in the cell written. -/
theorem back_ne_head (r : Ring α capacity) {i : Nat} (inside : i + 1 < capacity) : r.back i ≠ r.head := by
  have head := r.head_lt
  unfold back
  rcases Nat.lt_or_ge i r.head with behind | ahead
  · have shift : r.head + capacity - 1 - i = r.head - 1 - i + capacity := by omega
    rw [shift, Nat.add_mod_right, Nat.mod_eq_of_lt (by omega)]
    omega
  · rw [Nat.mod_eq_of_lt (by omega)]
    omega

theorem getElem_entries (r : Ring α capacity) {i : Nat} (inside : i < r.entries.length) :
    r.entries[i] = r.buf.get ⟨r.back i, r.back_lt i⟩ := by
  simp [entries, newest]

theorem get_push (r : Ring α capacity) (x : α) (i : Fin capacity) :
    (r.push x).buf.get i = if r.head = i then x else r.buf.get i := by
  exact Vector.getElem_set r.head_lt i.isLt

/-- A write adds its entry in front and drops the oldest of a full buffer. -/
theorem entries_push (r : Ring α capacity) (x : α) : (r.push x).entries = (x :: r.entries).take capacity := by
  have le := r.count_le
  have long : (r.push x).count = min capacity (r.count + 1) := by
    simp only [push]
    split <;> omega
  apply List.ext_getElem
  · simp [long]
  intro i first second
  rw [getElem_entries, get_push]
  cases i with
  | zero => simp
  | succ i =>
    rw [length_entries, long] at first
    have inside : i + 1 < capacity := by omega
    have other : r.head ≠ r.back i := (r.back_ne_head inside).symm
    simp [back_push_succ r x inside, other, getElem_entries]

end Ring

end Dockgraph
