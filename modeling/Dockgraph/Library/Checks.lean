/-!
# Chains of checks

A reader that gives up at its first failing check, and what it means that it got through.
-/
namespace Dockgraph.Checks

variable {ε α β : Type}

/-- Stops with `e` where `p` holds. -/
def refuse (p : Prop) [Decidable p] (e : ε) : Except ε Unit := if p then .error e else .ok ()

/-- Stops with `e` where there is no value. -/
def orError (o : Option α) (e : ε) : Except ε α := o.elim (.error e) .ok

@[simp] theorem refuse_ok {p : Prop} [Decidable p] {e : ε} {u : Unit} : refuse p e = .ok u ↔ ¬p := by
  unfold refuse
  by_cases h : p <;> simp [h]

@[simp] theorem orError_ok {o : Option α} {e : ε} {a : α} : orError o e = .ok a ↔ o = some a := by
  cases o <;> simp [orError]

/-- A chain gets through where its first check does and then the rest. -/
theorem bind_ok {x : Except ε α} {f : α → Except ε β} {b : β} :
    x >>= f = .ok b ↔ ∃ a, x = .ok a ∧ f a = .ok b := by
  cases x <;> simp [bind, Except.bind]

@[simp] theorem mapError_ok {δ : Type} {x : Except ε α} {f : ε → δ} {a : α} :
    x.mapError f = .ok a ↔ x = .ok a := by
  cases x with
  | error e => exact ⟨nofun, nofun⟩
  | ok b =>
    change (Except.ok b : Except δ α) = .ok a ↔ _
    simp

@[simp] theorem mapError_error {δ : Type} {x : Except ε α} {f : ε → δ} {d : δ} :
    x.mapError f = .error d ↔ ∃ e, x = .error e ∧ f e = d := by
  cases x with
  | error e =>
    change Except.error (f e) = Except.error d ↔ _
    simp
  | ok b => exact ⟨nofun, nofun⟩

@[simp] theorem map_error {δ : Type} {x : Except ε α} {f : α → δ} {e : ε} :
    x.map f = .error e ↔ x = .error e := by
  cases x with
  | error e => simp [Except.map]
  | ok b => simp [Except.map]

end Dockgraph.Checks
