import Mathlib.Data.List.Basic

/-!
# Repeating a step

A step is repeated until it does not apply any more. The step of a rule on lists rewrites the first place
where the rule applies.
-/
namespace Dockgraph.Settle

universe u

section Repeat

variable {σ : Type u} (step : σ → Option σ)

/-- Step after step until none applies. Without steps left there is no result. -/
def settle : Nat → σ → Option σ
  | 0, _ => none
  | n + 1, s =>
    match step s with
    | some t => settle n t
    | none => some s

variable {step} {s t : σ} {n : Nat}

/-- Steps that lower a measure come to an end. -/
theorem settle_ends (measure : σ → Nat) (down : ∀ s t, step s = some t → measure t < measure s)
    (enough : measure s < n) : ∃ t, settle step n s = some t := by
  induction n generalizing s with
  | zero => exact absurd enough (Nat.not_lt_zero _)
  | succ n ih =>
    rw [settle]
    split
    next t next =>
      have lower := down s t next
      exact ih (by omega)
    next => exact ⟨s, rfl⟩

/-- At the end no step applies. -/
theorem stuck_of_settle (done : settle step n s = some t) : step t = none := by
  induction n generalizing s with
  | zero => cases done
  | succ n ih =>
    rw [settle] at done
    split at done
    next => exact ih done
    next stuck =>
      cases done
      exact stuck

/-- What each step keeps. -/
theorem settle_invariant {p : σ → Prop} (keeps : ∀ s t, p s → step s = some t → p t) (start : p s)
    (done : settle step n s = some t) : p t := by
  induction n generalizing s with
  | zero => cases done
  | succ n ih =>
    rw [settle] at done
    split at done
    next u next => exact ih (keeps s u start next) done
    next =>
      cases done
      exact start

end Repeat

section Places

variable {α : Type u} (rule : List α → Option (List α))

/-- The first place where a rule applies is rewritten. -/
def rewriteFirst : List α → Option (List α)
  | [] => none
  | a :: rest =>
    match rule (a :: rest) with
    | some new => some new
    | none => (rewriteFirst rest).map (a :: ·)

variable {rule} {xs ys : List α}

theorem exists_place (found : rewriteFirst rule xs = some ys) :
    ∃ before old new, xs = before ++ old ∧ rule old = some new ∧ ys = before ++ new := by
  induction xs generalizing ys with
  | nil => cases found
  | cons a rest ih =>
    rw [rewriteFirst] at found
    split at found
    next new here =>
      obtain rfl := Option.some.inj found
      exact ⟨[], a :: rest, new, rfl, here, rfl⟩
    next =>
      obtain ⟨zs, later, rfl⟩ := Option.map_eq_some_iff.mp found
      obtain ⟨before, old, new, rfl, applied, rfl⟩ := ih later
      exact ⟨a :: before, old, new, rfl, applied, rfl⟩

theorem no_place {before old : List α} (absent : rewriteFirst rule (before ++ old) = none) (present : old ≠ []) :
    rule old = none := by
  induction before with
  | nil =>
    obtain ⟨a, rest, rfl⟩ := List.exists_cons_of_ne_nil present
    rw [List.nil_append, rewriteFirst] at absent
    split at absent
    next => cases absent
    next none => exact none
  | cons a before ih =>
    rw [List.cons_append, rewriteFirst] at absent
    split at absent
    next => cases absent
    next => exact ih (Option.map_eq_none_iff.mp absent)

end Places

end Dockgraph.Settle
