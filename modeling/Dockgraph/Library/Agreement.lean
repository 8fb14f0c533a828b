import Mathlib.Logic.Basic
import Mathlib.Tactic.ByContra

/-!
# Agreement

What several sources say of one thing, where any two different answers make a conflict and a
conflict stays one. The order in which the answers come does not matter.
-/
namespace Dockgraph.Agreement

variable {α : Type} [DecidableEq α] (conflict : α)

/-- The answer so far and one more. -/
def merge : Option α → Option α → Option α
  | none, answer => answer
  | some a, none => some a
  | some a, some b => some (if a = b then a else conflict)

@[simp] theorem merge_none (answer : Option α) : merge conflict answer none = answer := by
  cases answer <;> rfl

@[simp] theorem none_merge (answer : Option α) : merge conflict none answer = answer := by
  cases answer <;> rfl

/-- Nothing is said after a conflict. -/
theorem conflict_merge (answer : Option α) : merge conflict (some conflict) answer = some conflict := by
  cases answer with
  | none => rfl
  | some a => simp [merge]

theorem foldl_conflict {ι : Type} (answers : ι → Option α) (sources : List ι) :
    sources.foldl (fun answer i => merge conflict answer (answers i)) (some conflict) =
      some conflict := by
  induction sources with
  | nil => rfl
  | cons i sources ih => rw [List.foldl_cons, conflict_merge, ih]

/-- The first answer stands when no other differs from it. -/
theorem foldl_merge_some (first : α) (rest : List α) :
    rest.foldl (fun answer a => merge conflict answer (some a)) (some first) =
      some (if rest.any fun a => a ≠ first then conflict else first) := by
  induction rest with
  | nil => rfl
  | cons a rest ih =>
    rw [List.foldl_cons, List.any_cons, merge]
    by_cases same : first = a
    · subst same
      simp [ih]
    · have differs : decide (a ≠ first) = true := decide_eq_true (Ne.symm same)
      rw [if_neg same, foldl_conflict, differs, Bool.true_or, if_pos rfl]

/-- The answer is what the sources name: nothing, one thing, or different things. -/
structure Speaks (answer : Option α) (named : α → Prop) : Prop where
  none_iff : answer = none ↔ ∀ a, ¬named a
  some_iff : ∀ a, a ≠ conflict → (answer = some a ↔ ∀ b, named b ↔ b = a)

variable {conflict} {answer other : Option α} {named also : α → Prop}

omit [DecidableEq α] in
theorem Speaks.congr (speaks : Speaks conflict answer named) (same : ∀ a, named a ↔ also a) :
    Speaks conflict answer also := by
  have equal : named = also := funext fun a => propext (same a)
  exact equal ▸ speaks

omit [DecidableEq α] in
theorem speaks_none (silent : ∀ a, ¬named a) : Speaks conflict none named where
  none_iff := ⟨fun _ => silent, fun _ => rfl⟩
  some_iff a _ := ⟨nofun, fun only => absurd ((only a).mpr rfl) (silent a)⟩

omit [DecidableEq α] in
theorem speaks_some {a : α} : Speaks conflict (some a) fun b => b = a where
  none_iff := ⟨nofun, fun silent => absurd rfl (silent a)⟩
  some_iff b _ := by
    constructor
    · rintro ⟨⟩ c
      rfl
    · intro only
      exact congrArg some ((only a).mp rfl)

omit [DecidableEq α] in
theorem Speaks.exists (speaks : Speaks conflict (some a) named) : ∃ b, named b := by
  by_contra silent
  exact Option.some_ne_none a (speaks.none_iff.mpr fun b names => silent ⟨b, names⟩)

omit [DecidableEq α] in
/-- What is named decides the answer. -/
theorem Speaks.unique (first : Speaks conflict answer named) (second : Speaks conflict other named) :
    answer = other := by
  cases answer with
  | none => exact (second.none_iff.mpr (first.none_iff.mp rfl)).symm
  | some a =>
    cases other with
    | none => exact first.none_iff.mpr (second.none_iff.mp rfl)
    | some b =>
      by_cases proper : a = conflict
      · by_cases proper' : b = conflict
        · rw [proper, proper']
        · exact (first.some_iff b proper').mpr ((second.some_iff b proper').mp rfl)
      · exact ((second.some_iff a proper).mpr ((first.some_iff a proper).mp rfl)).symm

/-- Two sources together. -/
theorem Speaks.merge (first : Speaks conflict answer named) (second : Speaks conflict other also) :
    Speaks conflict (merge conflict answer other) fun a => named a ∨ also a := by
  cases answer with
  | none =>
    have silent := first.none_iff.mp rfl
    rw [none_merge]
    exact second.congr fun a => (or_iff_right (silent a)).symm
  | some a =>
    cases other with
    | none =>
      have silent := second.none_iff.mp rfl
      rw [merge_none]
      exact first.congr fun b => (or_iff_left (silent b)).symm
    | some b =>
      obtain ⟨x, names⟩ := first.exists
      obtain ⟨y, namesToo⟩ := second.exists
      refine ⟨⟨nofun, fun silent => absurd (.inl names) (silent x)⟩, fun c proper => ?_⟩
      constructor
      · intro agreed
        change some (if a = b then a else conflict) = some c at agreed
        split at agreed
        next same =>
          cases agreed
          subst same
          have onlyFirst := (first.some_iff a proper).mp rfl
          have onlySecond := (second.some_iff a proper).mp rfl
          intro d
          rw [onlyFirst, onlySecond, or_self]
        · cases agreed
          exact absurd rfl proper
      · intro only
        -- each source names this one thing
        have onlyFirst : ∀ d, named d ↔ d = c := fun d =>
          ⟨fun named => (only d).mp (.inl named), fun here => by
            rw [here, ← (only x).mp (.inl names)]
            exact names⟩
        have onlySecond : ∀ d, also d ↔ d = c := fun d =>
          ⟨fun also => (only d).mp (.inr also), fun here => by
            rw [here, ← (only y).mp (.inr namesToo)]
            exact namesToo⟩
        have one := (first.some_iff c proper).mpr onlyFirst
        have two := (second.some_iff c proper).mpr onlySecond
        rw [one, two]
        exact congrArg some (if_pos rfl)

/-- Any number of sources. -/
theorem Speaks.foldl {ι : Type} {answers : ι → Option α} {names : ι → α → Prop} {sources : List ι}
    (start : Speaks conflict answer named)
    (each : ∀ i ∈ sources, Speaks conflict (answers i) (names i)) :
    Speaks conflict (sources.foldl (fun answer i => Agreement.merge conflict answer (answers i)) answer)
      fun a => named a ∨ ∃ i ∈ sources, names i a := by
  induction sources generalizing answer named with
  | nil =>
    refine start.congr fun a => (or_iff_left ?_).symm
    rintro ⟨i, member, -⟩
    cases member
  | cons i sources ih =>
    rw [List.forall_mem_cons] at each
    refine (ih (start.merge each.1) each.2).congr fun a => ?_
    simp only [List.mem_cons, exists_eq_or_imp, or_assoc]

end Dockgraph.Agreement
