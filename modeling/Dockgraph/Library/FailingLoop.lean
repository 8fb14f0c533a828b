import Mathlib.Data.List.Perm.Basic

/-!
# Loops that end at the first error

What holds from state to state along a loop that went through, and where one that did not ended.
-/
namespace Dockgraph.FailingLoop

section Fold

variable {ε σ α : Type} {f : σ → α → Except ε σ} {xs : List α} {s t : σ}

theorem foldlM_cons_ok {x : α} (run : (x :: xs).foldlM f s = .ok t) :
    ∃ u, f s x = .ok u ∧ xs.foldlM f u = .ok t := by
  rw [List.foldlM_cons] at run
  cases first : f s x with
  | error e => simp [first, bind, Except.bind] at run
  | ok u => exact ⟨u, rfl, by simpa [first, bind, Except.bind] using run⟩

/-- What every step preserves. -/
theorem invariant_of_ok {p : σ → Prop} (step : ∀ x ∈ xs, ∀ u v, f u x = .ok v → p u → p v) (start : p s)
    (run : xs.foldlM f s = .ok t) : p t := by
  induction xs generalizing s with
  | nil =>
    cases run
    exact start
  | cons x rest ih =>
    obtain ⟨u, first, remaining⟩ := foldlM_cons_ok run
    rw [List.forall_mem_cons] at step
    exact ih step.2 (step.1 s u first start) remaining

end Fold

/-! ## Results of every element -/

section Map

variable {ε α β : Type} {f : α → Except ε β} {xs : List α} {ys : List β}

theorem mapM_cons_ok {x : α} : (x :: xs).mapM f = .ok ys ↔
    ∃ y rest, f x = .ok y ∧ xs.mapM f = .ok rest ∧ ys = y :: rest := by
  rw [List.mapM_cons]
  cases first : f x with
  | error e => simp [bind, Except.bind]
  | ok y => cases others : xs.mapM f <;> simp [bind, Except.bind, pure, Except.pure, eq_comm]

theorem mapM_eq_ok : xs.mapM f = .ok ys ↔ List.Forall₂ (fun x y => f x = .ok y) xs ys := by
  induction xs generalizing ys with
  | nil => simp [pure, Except.pure, eq_comm]
  | cons x rest ih => simp only [mapM_cons_ok, List.forall₂_cons_left_iff, ih]

/-- The order of the elements decides nothing but that of the results. -/
theorem mapM_perm {xs' : List α} (perm : xs.Perm xs') (run : xs.mapM f = .ok ys) :
    ∃ ys', xs'.mapM f = .ok ys' ∧ ys'.Perm ys := by
  obtain ⟨ys', each, results⟩ := List.perm_comp_forall₂ perm.symm (mapM_eq_ok.mp run)
  exact ⟨ys', mapM_eq_ok.mpr each, results⟩

end Map

/-! ## Loops that go through -/

/-- A loop none of whose steps fails, and what holds of the elements gone through. -/
theorem exists_foldlM {σ α : Type} {f : σ → α → Option σ} (p : List α → σ → Prop) {xs : List α} {s : σ}
    (start : p [] s) (step : ∀ before x u, x ∈ xs → p before u → ∃ v, f u x = some v ∧ p (before ++ [x]) v) :
    ∃ t, xs.foldlM f s = some t ∧ p xs t := by
  suffices ∀ rest before u, xs = before ++ rest → p before u → ∃ t, rest.foldlM f u = some t ∧ p xs t from
    this xs [] s rfl start
  intro rest
  induction rest with
  | nil =>
    rintro before u rfl holds
    exact ⟨u, rfl, (List.append_nil before).symm ▸ holds⟩
  | cons x rest ih =>
    rintro before u same holds
    have member : x ∈ xs := same ▸ List.mem_append_right before List.mem_cons_self
    obtain ⟨v, next, holds⟩ := step before x u member holds
    obtain ⟨t, run, holds⟩ := ih (before ++ [x]) v (by rw [same, List.append_assoc]; rfl) holds
    refine ⟨t, ?_, holds⟩
    rw [List.foldlM_cons, next]
    exact run

end Dockgraph.FailingLoop
