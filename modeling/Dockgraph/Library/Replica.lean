import Mathlib.Tactic.Basic

/-!
# Replicas of a value

A replica follows a value through messages that carry either the whole value or a change to
be applied to what the replica holds. A change is only right on a replica that holds the
value the change was computed from. Values are compared by a setoid that changes respect.
-/
namespace Dockgraph.Replica

inductive Msg (G D : Type)
  | reset (value : G)
  | change (base : G) (d : D)

variable {G D : Type}

section Replay

variable (apply : D → G → G)

def receive (g : G) : Msg G D → G
  | .reset value => value
  | .change _ d => apply d g

def replay (g : G) (ms : List (Msg G D)) : G := ms.foldl (receive apply) g

@[simp] theorem replay_nil (g : G) : replay apply g [] = g := rfl

@[simp] theorem replay_cons (g : G) (m : Msg G D) (ms : List (Msg G D)) :
    replay apply g (m :: ms) = replay apply (receive apply g m) ms := rfl

@[simp] theorem replay_append (g : G) (ms ns : List (Msg G D)) :
    replay apply g (ms ++ ns) = replay apply (replay apply g ms) ns :=
  List.foldl_append

end Replay

/-- The first message, if any, carries the whole value. -/
def StartsFull : List (Msg G D) → Prop
  | [] => True
  | .reset _ :: _ => True
  | .change _ _ :: _ => False

theorem startsFull_append {ms ns : List (Msg G D)} (ne : ms ≠ []) :
    StartsFull (ms ++ ns) ↔ StartsFull ms := by
  cases ms with
  | nil => exact absurd rfl ne
  | cons m ms => cases m <;> rfl

theorem startsFull_of_append {ms ns : List (Msg G D)} (full : StartsFull (ms ++ ns)) :
    StartsFull ms := by
  cases ms with
  | nil => trivial
  | cons m ms => cases m <;> exact full

/-- What a replica held does not matter once it received the whole value. -/
theorem replay_startsFull {apply : D → G → G} {ms : List (Msg G D)} (full : StartsFull ms)
    (ne : ms ≠ []) (g h : G) : replay apply g ms = replay apply h ms := by
  cases ms with
  | nil => exact absurd rfl ne
  | cons m ms =>
    cases m with
    | reset value => rfl
    | change base d => exact full.elim

section Bases

variable [Setoid G] (apply : D → G → G)

/-- The message may be applied to `g`. -/
def Fits (g : G) : Msg G D → Prop
  | .reset _ => True
  | .change base _ => g ≈ base

/-- Replayed from `g`, every change is applied to its base. -/
def OnBase (g : G) : List (Msg G D) → Prop
  | [] => True
  | m :: ms => Fits g m ∧ OnBase (receive apply g m) ms

instance [∀ g h : G, Decidable (g ≈ h)] (g : G) : (m : Msg G D) → Decidable (Fits g m)
  | .reset _ => .isTrue trivial
  | .change base _ => inferInstanceAs (Decidable (g ≈ base))

instance decidableOnBase [∀ g h : G, Decidable (g ≈ h)] :
    (g : G) → (ms : List (Msg G D)) → Decidable (OnBase apply g ms)
  | _, [] => .isTrue trivial
  | g, m :: ms =>
    have := decidableOnBase (receive apply g m) ms
    inferInstanceAs (Decidable (Fits g m ∧ OnBase apply (receive apply g m) ms))

/-- Replayed from `g`, the messages apply every change to its base and end in `h`. -/
structure Leads (g : G) (ms : List (Msg G D)) (h : G) : Prop where
  onBase : OnBase apply g ms
  ends : replay apply g ms ≈ h

/-- The message takes a replica of `g` to `h`. -/
structure Advances (g : G) (m : Msg G D) (h : G) : Prop where
  fits : Fits g m
  ends : receive apply g m ≈ h

variable {apply} {g h k : G} {m : Msg G D} {ms ns : List (Msg G D)}

theorem onBase_append :
    OnBase apply g (ms ++ ns) ↔ OnBase apply g ms ∧ OnBase apply (replay apply g ms) ns := by
  induction ms generalizing g with
  | nil => simp [OnBase]
  | cons m ms ih => simp only [List.cons_append, OnBase, ih, replay_cons, and_assoc]

theorem onBase_startsFull (full : StartsFull ms) (onBase : OnBase apply g ms) :
    OnBase apply h ms := by
  cases ms with
  | nil => trivial
  | cons m ms =>
    cases m with
    | reset value => exact onBase
    | change base d => exact full.elim

theorem leads_nil : Leads apply g [] h ↔ g ≈ h :=
  ⟨fun leads => leads.ends, fun same => ⟨trivial, same⟩⟩

theorem leads_append :
    Leads apply g (ms ++ ns) k ↔ OnBase apply g ms ∧ Leads apply (replay apply g ms) ns k := by
  constructor
  · rintro ⟨onBase, ends⟩
    obtain ⟨first, rest⟩ := onBase_append.mp onBase
    exact ⟨first, rest, by rwa [replay_append] at ends⟩
  · rintro ⟨first, rest, ends⟩
    exact ⟨onBase_append.mpr ⟨first, rest⟩, by rwa [replay_append]⟩

theorem leads_singleton : Leads apply g [m] h ↔ Advances apply g m h :=
  ⟨fun leads => ⟨leads.onBase.1, leads.ends⟩, fun step => ⟨⟨step.fits, trivial⟩, step.ends⟩⟩

theorem leads_reset (value : G) : Leads apply g [.reset value] value :=
  ⟨⟨trivial, trivial⟩, Setoid.refl value⟩

theorem Leads.congr_end (leads : Leads apply g ms h) (same : h ≈ k) : Leads apply g ms k :=
  ⟨leads.onBase, Setoid.trans leads.ends same⟩

section Congruence

variable (congr : ∀ (d : D) {a b : G}, a ≈ b → apply d a ≈ apply d b)
include congr

theorem receive_congr (same : g ≈ h) : receive apply g m ≈ receive apply h m := by
  cases m with
  | reset value => exact Setoid.refl value
  | change base d => exact congr d same

omit congr in
theorem fits_congr (same : g ≈ h) : Fits g m ↔ Fits h m := by
  cases m with
  | reset value => exact Iff.rfl
  | change base d => exact ⟨Setoid.trans (Setoid.symm same), Setoid.trans same⟩

theorem Leads.congr_start (same : g ≈ h) (leads : Leads apply g ms k) : Leads apply h ms k := by
  induction ms generalizing g h with
  | nil => exact leads_nil.mpr (Setoid.trans (Setoid.symm same) leads.ends)
  | cons m ms ih =>
    obtain ⟨⟨fits, onBase⟩, ends⟩ := leads
    have tail := ih (receive_congr congr same) ⟨onBase, ends⟩
    exact ⟨⟨(fits_congr same).mp fits, tail.onBase⟩, tail.ends⟩

theorem Advances.congr_start (same : g ≈ h) (step : Advances apply g m k) :
    Advances apply h m k :=
  ⟨(fits_congr same).mp step.fits,
    Setoid.trans (Setoid.symm (receive_congr congr same)) step.ends⟩

theorem Leads.append (first : Leads apply g ms h) (rest : Leads apply h ns k) :
    Leads apply g (ms ++ ns) k :=
  leads_append.mpr ⟨first.onBase, rest.congr_start congr (Setoid.symm first.ends)⟩

/-- A replica of `g` that receives what takes `g` to `h` is a replica of `h`. -/
theorem Leads.concat (leads : Leads apply k ms g) (step : Advances apply g m h) :
    Leads apply k (ms ++ [m]) h :=
  leads.append congr (leads_singleton.mpr step)

end Congruence

end Bases

end Dockgraph.Replica
