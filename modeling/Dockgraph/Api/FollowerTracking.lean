import Dockgraph.Api.LogFollowers
import Dockgraph.Library.Transition

/-!
# Followers are told apart by identity

A follower that was removed goes on until it finds that its context ended, and by then there may be
another for the same ID. The map's entry is the address of a follower, so the one that exits finds
out whether the entry is its own.
-/
namespace Dockgraph.Api

open Transition

/-! ## Runs of the aggregator -/

/-- The aggregator with all followers it ever started and the contexts that were cancelled. -/
structure Tracking where
  agg : LogAggregator := {}
  started : List Follower := []
  cancels : List Nat := []

namespace Tracking

def addSource (s : Tracking) (id name : String) : Tracking :=
  if id ∈ s.agg.followers then s
  else
    { s with
      agg := s.agg.addSource id name
      started := s.started ++ [{ id, name, token := s.agg.nextToken }] }

def remove (s : Tracking) (id : String) : Tracking :=
  { s with
    agg := s.agg.remove id
    cancels := (s.agg.followers.lookup id).toList ++ s.cancels }

/-- `run` returns, at any time after the start: its deferred `forget` is the last it does. -/
def exit (s : Tracking) (f : Follower) : Option Tracking :=
  if f ∈ s.agg.goroutines then
    some { s with agg := s.agg.forget f, cancels := f.token :: s.cancels }
  else none

inductive Step
  | addSource (id name : String)
  | remove (id : String)
  | exit (f : Follower)

def step (s : Tracking) : Step → Option Tracking
  | .addSource id name => some (s.addSource id name)
  | .remove id => some (s.remove id)
  | .exit f => s.exit f

/-- The follower's context was not cancelled. -/
def Live (s : Tracking) (f : Follower) : Prop := f ∈ s.started ∧ f.token ∉ s.cancels

end Tracking

/-! ## The map -/

namespace LogAggregator

variable (a : LogAggregator) {id : String} {token : Nat}

theorem lookup_addSource {key name : String} (absent : key ∉ a.followers) :
    (a.addSource key name).followers.lookup id = some token ↔
      a.followers.lookup id = some token ∨ id = key ∧ token = a.nextToken := by
  rw [addSource, if_neg absent]
  by_cases same : id = key
  · subst same
    rw [AList.lookup_insert, AList.lookup_eq_none.mpr absent]
    simp [eq_comm]
  · rw [AList.lookup_insert_ne same]
    simp [same]

theorem lookup_remove {key : String} : (a.remove key).followers.lookup id = some token ↔
    a.followers.lookup id = some token ∧ id ≠ key := by
  unfold remove
  by_cases same : id = key
  · subst same
    simp
  · simp [AList.lookup_erase_ne same, same]

/-- Only the entry with the follower's own token goes. -/
theorem lookup_forget {f : Follower} : (a.forget f).followers.lookup id = some token ↔
    a.followers.lookup id = some token ∧ ¬(id = f.id ∧ token = f.token) := by
  unfold forget
  dsimp only
  by_cases same : id = f.id
  · subst same
    split
    next own => simp [own, eq_comm]
    next taken =>
      simp only [true_and]
      constructor
      · intro found
        refine ⟨found, ?_⟩
        rintro rfl
        exact taken found
      · exact And.left
  · split
    next => simp [AList.lookup_erase_ne same, same]
    next => simp [same]

end LogAggregator

/-! ## The invariant -/

namespace Tracking

/-- Tokens are never used again, and the entries are the live followers. -/
structure Exact (s : Tracking) : Prop where
  fresh : ∀ f ∈ s.started, f.token < s.agg.nextToken
  ended : ∀ token ∈ s.cancels, token < s.agg.nextToken
  distinct : (s.started.map Follower.token).Nodup
  running : ∀ f ∈ s.agg.goroutines, f ∈ s.started
  mapped : ∀ id token, s.agg.followers.lookup id = some token ↔
    ∃ f, s.Live f ∧ f.id = id ∧ f.token = token

theorem exact_new : Exact {} where
  fresh := by simp
  ended := by simp
  distinct := .nil
  running := by simp
  mapped := by simp [Live]

namespace Exact

variable {s : Tracking} (exact : s.Exact)
include exact

theorem eq_of_token_eq {f g : Follower} (hf : f ∈ s.started) (hg : g ∈ s.started)
    (same : f.token = g.token) : f = g :=
  List.inj_on_of_nodup_map exact.distinct hf hg same

theorem lookup_iff_live {f : Follower} (member : f ∈ s.started) :
    s.agg.followers.lookup f.id = some f.token ↔ f.token ∉ s.cancels := by
  rw [exact.mapped]
  constructor
  · rintro ⟨g, live, -, same⟩
    rw [← same]
    exact live.2
  · intro live
    exact ⟨f, ⟨member, live⟩, rfl, rfl⟩

theorem addSource (id name : String) : (s.addSource id name).Exact := by
  unfold Tracking.addSource
  split
  next => exact exact
  next absent =>
    have next : (s.agg.addSource id name).nextToken = s.agg.nextToken + 1 := by
      rw [LogAggregator.addSource, if_neg absent]
    have goroutines : (s.agg.addSource id name).goroutines =
        s.agg.goroutines ++ [{ id, name, token := s.agg.nextToken }] := by
      rw [LogAggregator.addSource, if_neg absent]
    -- no follower and no cancelled context has the new token
    have unused : s.agg.nextToken ∉ s.cancels := fun used => (exact.ended _ used).false
    refine ⟨fun f member => ?_, fun token used => ?_, ?_, fun f member => ?_, fun key token => ?_⟩
    · rw [next]
      rcases List.mem_append.mp member with old | new
      · exact (exact.fresh f old).trans_le (Nat.le_succ _)
      · rw [List.mem_singleton.mp new]
        exact Nat.lt_succ_self _
    · rw [next]
      exact (exact.ended token used).trans_le (Nat.le_succ _)
    · rw [List.map_append, List.nodup_append]
      refine ⟨exact.distinct, List.nodup_singleton _, fun token old other new => ?_⟩
      obtain ⟨f, member, rfl⟩ := List.mem_map.mp old
      rw [List.mem_singleton.mp new]
      exact (exact.fresh f member).ne
    · rw [goroutines] at member
      rcases List.mem_append.mp member with old | new
      · exact List.mem_append_left _ (exact.running f old)
      · exact List.mem_append_right _ new
    · rw [s.agg.lookup_addSource absent, exact.mapped]
      simp only [Live, List.mem_append, List.mem_singleton]
      constructor
      · rintro (⟨f, ⟨member, live⟩, keyed, own⟩ | ⟨rfl, rfl⟩)
        · exact ⟨f, ⟨.inl member, live⟩, keyed, own⟩
        · exact ⟨_, ⟨.inr rfl, unused⟩, rfl, rfl⟩
      · rintro ⟨f, ⟨member | rfl, live⟩, keyed, own⟩
        · exact .inl ⟨f, ⟨member, live⟩, keyed, own⟩
        · exact .inr ⟨keyed.symm, own.symm⟩

theorem remove (id : String) : (s.remove id).Exact where
  fresh := exact.fresh
  ended token used := by
    rcases List.mem_append.mp used with entry | old
    · rw [Option.mem_toList, exact.mapped] at entry
      obtain ⟨f, live, -, rfl⟩ := entry
      exact exact.fresh f live.1
    · exact exact.ended token old
  distinct := exact.distinct
  running := exact.running
  mapped key token := by
    change (s.agg.remove id).followers.lookup key = some token ↔ _
    rw [LogAggregator.lookup_remove, exact.mapped]
    simp only [Live, Tracking.remove, List.mem_append, Option.mem_toList, not_or]
    constructor
    · rintro ⟨⟨f, ⟨member, live⟩, rfl, rfl⟩, other⟩
      refine ⟨f, ⟨member, fun entry => other ?_, live⟩, rfl, rfl⟩
      -- the removed entry belongs to a follower of its own ID
      obtain ⟨g, liveToo, keyed, same⟩ := (exact.mapped id f.token).mp entry
      rw [← keyed, exact.eq_of_token_eq liveToo.1 member same]
    · rintro ⟨f, ⟨member, kept, live⟩, rfl, rfl⟩
      refine ⟨⟨f, ⟨member, live⟩, rfl, rfl⟩, ?_⟩
      rintro rfl
      exact kept ((exact.lookup_iff_live member).mpr live)

theorem exit {f : Follower} {t : Tracking} (exits : s.exit f = some t) : t.Exact := by
  unfold Tracking.exit at exits
  split at exits
  next running =>
    cases exits
    have member := exact.running f running
    refine ⟨exact.fresh, fun token used => ?_, exact.distinct, fun g left => ?_, fun key token => ?_⟩
    · rcases List.mem_cons.mp used with rfl | old
      · exact exact.fresh f member
      · exact exact.ended token old
    · exact exact.running g (List.mem_of_mem_erase left)
    · change (s.agg.forget f).followers.lookup key = some token ↔ _
      rw [LogAggregator.lookup_forget, exact.mapped]
      simp only [Live, List.mem_cons, not_or]
      constructor
      · rintro ⟨⟨g, ⟨listed, live⟩, rfl, rfl⟩, other⟩
        refine ⟨g, ⟨listed, fun same => other ?_, live⟩, rfl, rfl⟩
        rw [exact.eq_of_token_eq listed member same]
        exact ⟨rfl, rfl⟩
      · rintro ⟨g, ⟨listed, other, live⟩, rfl, rfl⟩
        exact ⟨⟨g, ⟨listed, live⟩, rfl, rfl⟩, fun own => other own.2⟩
  next => cases exits

theorem step {i : Step} {t : Tracking} (next : s.step i = some t) : t.Exact := by
  cases i with
  | addSource id name =>
    cases next
    exact exact.addSource id name
  | remove id =>
    cases next
    exact exact.remove id
  | exit f => exact exact.exit next

theorem eq_of_live {f g : Follower} (hf : s.Live f) (hg : s.Live g) (same : f.id = g.id) : f = g := by
  have first := (exact.lookup_iff_live hf.1).mpr hf.2
  have second := (exact.lookup_iff_live hg.1).mpr hg.2
  rw [same, second] at first
  exact exact.eq_of_token_eq hf.1 hg.1 (Option.some.inj first).symm

/-- An exit touches no other follower. -/
theorem frame_exit {f g : Follower} {t : Tracking} (exits : s.exit f = some t) (member : g ∈ s.started)
    (other : g ≠ f) : (t.Live g ↔ s.Live g) ∧
      (t.agg.followers.lookup g.id = some g.token ↔ s.agg.followers.lookup g.id = some g.token) := by
  have after := exact.exit exits
  unfold Tracking.exit at exits
  split at exits
  next running =>
    cases exits
    have distinct : g.token ≠ f.token := fun same =>
      other (exact.eq_of_token_eq member (exact.running f running) same)
    refine ⟨?_, ?_⟩
    · simp [Live, distinct]
    · rw [after.lookup_iff_live member, exact.lookup_iff_live member]
      simp [distinct]
  next => cases exits

end Exact

theorem exact_run {steps : List Step} {s : Tracking} (run : exec step {} steps = some s) : s.Exact := by
  have any : Along Tracking.step (fun _ _ => True) {} steps := along_of_forall fun _ _ => trivial
  exact exec_invariant (fun _ _ _ exact _ next => exact.step next) exact_new any run

/-- Whatever the order of starts, removals and exits, the entries are the live followers, at most one
for an ID, and an exit leaves every other follower and its entry as they are. -/
theorem followers_exact (steps : List Step) (s : Tracking) (run : exec step {} steps = some s) :
    (∀ f g, s.Live f → s.Live g → f.id = g.id → f = g) ∧
      (∀ id token, s.agg.followers.lookup id = some token ↔ ∃ f, s.Live f ∧ f.id = id ∧ f.token = token) ∧
      ∀ f t, s.exit f = some t → ∀ g ∈ s.started, g ≠ f → (t.Live g ↔ s.Live g) ∧
        (t.agg.followers.lookup g.id = some g.token ↔ s.agg.followers.lookup g.id = some g.token) := by
  have exact := exact_run run
  exact ⟨fun f g => exact.eq_of_live, exact.mapped, fun f t exits g => exact.frame_exit exits⟩

/-- A container that stopped and started again while its first follower still runs. -/
theorem followers_exact_restarted :
    ∃ s, exec step {} [.addSource "c1" "web", .remove "c1", .addSource "c1" "web"] = some s ∧
      ∀ t, s.exit ⟨"c1", "web", 0⟩ = some t → t.agg.followers.lookup "c1" = some 1 := by
  refine ⟨_, rfl, fun t exits => ?_⟩
  obtain ⟨-, -, frame⟩ :=
    followers_exact [.addSource "c1" "web", .remove "c1", .addSource "c1" "web"] _ rfl
  exact (frame _ t exits ⟨"c1", "web", 1⟩ (by decide) (by decide)).2.mpr rfl

end Tracking

end Dockgraph.Api
