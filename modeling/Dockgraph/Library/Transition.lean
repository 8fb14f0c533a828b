/-!
# Runs of a step function

A system is a partial step function over inputs: an input that is not enabled has no next
state. A property of reachable states is proved from what one step preserves, for the runs
whose inputs all meet a condition.
-/
namespace Dockgraph.Transition

universe u v

variable {σ : Type u} {ι : Type v}

/-- The state a list of inputs leads to. -/
def exec (step : σ → ι → Option σ) : σ → List ι → Option σ
  | s, [] => some s
  | s, i :: is => (step s i).bind fun t => exec step t is

/-- Every input of the run meets `ok` in the state it arrives in. -/
def Along (step : σ → ι → Option σ) (ok : σ → ι → Prop) : σ → List ι → Prop
  | _, [] => True
  | s, i :: is => ok s i ∧ ∀ t, step s i = some t → Along step ok t is

variable {step : σ → ι → Option σ} {ok : σ → ι → Prop} {s t : σ}

theorem exec_cons {i : ι} {is : List ι} :
    exec step s (i :: is) = some t ↔ ∃ u, step s i = some u ∧ exec step u is = some t :=
  Option.bind_eq_some_iff

theorem exec_append {is js : List ι} :
    exec step s (is ++ js) = some t ↔ ∃ u, exec step s is = some u ∧ exec step u js = some t := by
  induction is generalizing s with
  | nil => simp [exec]
  | cons i is ih =>
    simp only [List.cons_append, exec_cons, ih]
    constructor
    · rintro ⟨v, first, u, rest, last⟩
      exact ⟨u, ⟨v, first, rest⟩, last⟩
    · rintro ⟨u, ⟨v, first, rest⟩, last⟩
      exact ⟨v, first, u, rest, last⟩

theorem along_cons {i : ι} {is : List ι} (permitted : ok s i) (next : step s i = some t)
    (rest : Along step ok t is) : Along step ok s (i :: is) :=
  ⟨permitted, fun u other => by rw [next] at other; cases other; exact rest⟩

/-- A permitted run is built step by step. -/
theorem exec_along_cons {i : ι} {is : List ι} {u : σ} (permitted : ok s i) (next : step s i = some t)
    (rest : exec step t is = some u ∧ Along step ok t is) :
    exec step s (i :: is) = some u ∧ Along step ok s (i :: is) :=
  ⟨exec_cons.mpr ⟨t, next, rest.1⟩, along_cons permitted next rest.2⟩

theorem along_append {is js : List ι} (first : Along step ok s is) (run : exec step s is = some t)
    (rest : Along step ok t js) : Along step ok s (is ++ js) := by
  induction is generalizing s with
  | nil =>
    cases run
    exact rest
  | cons i is ih =>
    obtain ⟨u, next, more⟩ := exec_cons.mp run
    exact along_cons first.1 next (ih (first.2 u next) more)

theorem Along.and {other : σ → ι → Prop} {is : List ι} (first : Along step ok s is)
    (second : Along step other s is) : Along step (fun s i => ok s i ∧ other s i) s is := by
  induction is generalizing s with
  | nil => trivial
  | cons i is ih =>
    exact ⟨⟨first.1, second.1⟩, fun t next => ih (first.2 t next) (second.2 t next)⟩

/-- What every permitted step preserves holds at the end of every permitted run. -/
theorem exec_invariant {p : σ → Prop}
    (preserves : ∀ s i t, p s → ok s i → step s i = some t → p t)
    {is : List ι} (start : p s) (permitted : Along step ok s is)
    (run : exec step s is = some t) : p t := by
  induction is generalizing s with
  | nil =>
    cases run
    exact start
  | cons i is ih =>
    obtain ⟨u, first, rest⟩ := exec_cons.mp run
    exact ih (preserves s i u start permitted.1 first) (permitted.2 u first) rest

/-- A condition on the inputs alone. -/
theorem along_of_forall {p : ι → Prop} {is : List ι} (all : ∀ i ∈ is, p i) :
    Along step (fun _ i => p i) s is := by
  induction is generalizing s with
  | nil => trivial
  | cons i is ih =>
    exact ⟨all i List.mem_cons_self, fun _ _ => ih fun j member => all j (List.mem_cons_of_mem i member)⟩

end Dockgraph.Transition
