import Dockgraph.Library.Transition
import Mathlib.Data.List.Basic

/-!
# Polling (`hooks/usePollingFetch.ts`)

One hook over its renders. An effect runs for the URL it was rendered with until the next one aborts it; its
requests end in any order and at any time, also once they are aborted. Times are milliseconds.
-/
namespace Dockgraph.Frontend

variable {τ : Type}

/-- What the hook returns. -/
structure FetchState (τ : Type) where
  data : Option τ
  loading : Bool
  error : Option String
  deriving DecidableEq

structure KeyedState (τ : Type) extends FetchState τ where
  url : Option String
  deriving DecidableEq

/-- `EMPTY` -/
def KeyedState.empty : KeyedState τ := { url := none, data := none, loading := false, error := none }

/-- A request of an effect. -/
structure Poll (τ : Type) where
  effect : Nat
  url : String
  interval : Nat
  issued : Nat
  /-- Its data or the message of its error, once its promise has settled. -/
  outcome : Option (Except String τ) := none
  /-- When its `finally` ran. -/
  ended : Option Nat := none

/-- An effect that has not been cleaned up. -/
structure Effect where
  id : Nat
  url : String
  interval : Nat

structure Polling (τ : Type) where
  clock : Nat := 0
  /-- The effects that have run for a URL. -/
  effects : Nat := 0
  running : Option Effect := none
  /-- The controllers that were aborted. -/
  aborted : List Nat := []
  /-- When the next request is due. -/
  timer : Option Nat := none
  requests : List (Poll τ) := []
  stored : KeyedState τ := .empty
  /-- The requests whose data was stored, the last one last. -/
  taken : List Nat := []

namespace Polling

/-- `doFetch` -/
def doFetch (s : Polling τ) (e : Effect) : Polling τ :=
  { s with requests := s.requests ++ [{ effect := e.id, url := e.url, interval := e.interval, issued := s.clock }] }

/-- The cleanup of an effect. -/
def cleanup (s : Polling τ) : Polling τ :=
  match s.running with
  | none => s
  | some e => { s with running := none, aborted := e.id :: s.aborted, timer := none }

/-- The effect of a committed render, after the cleanup of the one before. An empty URL is none. -/
def commit (s : Polling τ) (url : Option String) (interval : Nat) : Polling τ :=
  let s := s.cleanup
  match url.filter (· ≠ "") with
  | none => { s with stored := .empty }
  | some url =>
    let e : Effect := { id := s.effects, url, interval }
    -- data is kept for the URL it belongs to
    let keep := if s.stored.url = some url then s.stored.data else none
    { s with
      effects := s.effects + 1
      running := some e
      stored := { url := some url, data := keep, loading := true, error := none } }.doFetch e

/-- The `then` or the `catch` of a request. -/
def settle (s : Polling τ) (i : Nat) (outcome : Except String τ) : Option (Polling τ) :=
  match s.requests[i]? with
  | none => none
  | some r =>
    if r.outcome.isSome then none
    else
      let s := { s with requests := s.requests.set i { r with outcome := some outcome } }
      if r.effect ∈ s.aborted then some s
      else match outcome with
        | .ok data => some { s with
            stored := { url := some r.url, data := some data, loading := false, error := none }
            taken := s.taken ++ [i] }
        | .error message => some { s with stored := { s.stored with loading := false, error := some message } }

/-- The `finally` of a request. -/
def finish (s : Polling τ) (i : Nat) : Option (Polling τ) :=
  match s.requests[i]? with
  | none => none
  | some r =>
    if r.outcome.isNone ∨ r.ended.isSome then none
    else
      let s := { s with requests := s.requests.set i { r with ended := some s.clock } }
      if r.effect ∈ s.aborted then some s else some { s with timer := some (s.clock + r.interval) }

def fire (s : Polling τ) : Option (Polling τ) :=
  match s.timer, s.running with
  | some due, some e => if due ≤ s.clock then some ({ s with timer := none }.doFetch e) else none
  | _, _ => none

inductive Input (τ : Type)
  | wait (d : Nat)
  | commit (url : Option String) (interval : Nat)
  | unmount
  | settle (i : Nat) (outcome : Except String τ)
  | finish (i : Nat)
  | fire

def step (s : Polling τ) : Input τ → Option (Polling τ)
  | .wait d => some { s with clock := s.clock + d }
  | .commit url interval => some (s.commit url interval)
  | .unmount => some s.cleanup
  | .settle i outcome => s.settle i outcome
  | .finish i => s.finish i
  | .fire => s.fire

/-- What a render for `url` returns. -/
def shown (s : Polling τ) (url : Option String) : FetchState τ :=
  if s.stored.url = url then s.stored.toFetchState
  else { data := none, loading := url.any (· ≠ ""), error := none }

/-! ## What every step keeps -/

/-- The last request is the running effect's, and its end arms the timer for the next one. -/
structure Alive (s : Polling τ) (e : Effect) : Prop where
  url : s.stored.url = some e.url
  id : e.id ∉ s.aborted
  last : ∃ (i : Nat) (r : Poll τ), s.requests[i]? = some r ∧ s.requests.length = i + 1 ∧ r.effect = e.id ∧
    r.interval = e.interval ∧ r.url = e.url ∧ s.timer = r.ended.map (· + e.interval)
  before : ∀ (i : Nat) (r : Poll τ), s.requests[i]? = some r → i + 1 < s.requests.length → r.effect = e.id →
    r.ended.isSome

structure Kept (s : Polling τ) : Prop where
  /-- Only the running effect is not aborted. -/
  others : ∀ (i : Nat) (r : Poll τ), s.requests[i]? = some r → r.effect ∉ s.aborted →
    ∃ e, s.running = some e ∧ e.id = r.effect
  numbered : (∀ (i : Nat) (r : Poll τ), s.requests[i]? = some r → r.effect < s.effects) ∧
    ∀ n ∈ s.aborted, n < s.effects
  /-- An effect's next request comes its interval after the end of the one before. -/
  spaced : ∀ (i j : Nat) (p r : Poll τ), i < j → s.requests[i]? = some p → s.requests[j]? = some r →
    p.effect = r.effect → ∃ t, p.ended = some t ∧ t + p.interval ≤ r.issued
  issued : ∀ (i : Nat) (r : Poll τ), s.requests[i]? = some r → r.issued ≤ s.clock
  answered : ∀ (i : Nat) (r : Poll τ), s.requests[i]? = some r → r.ended.isSome → r.outcome.isSome
  /-- An older response never comes after a newer one. -/
  ordered : s.taken.Pairwise (· < ·)
  taken : ∀ i ∈ s.taken, ∃ r, s.requests[i]? = some r ∧ r.outcome.isSome
  /-- What is stored is the last response taken, and the stored URL's. -/
  data : ∀ d, s.stored.data = some d → ∃ i r, s.taken.getLast? = some i ∧ s.requests[i]? = some r ∧
    r.outcome = some (.ok d) ∧ s.stored.url = some r.url

structure Sound (s : Polling τ) : Prop extends Kept s where
  alive : ∀ e, s.running = some e → s.Alive e
  timer : s.running = none → s.timer = none

theorem sound_initial : Sound ({} : Polling τ) := by
  constructor
  · constructor <;> simp [KeyedState.empty]
  all_goals simp

section Steps

variable {s : Polling τ} {e : Effect}

theorem cleanup_running (s : Polling τ) : s.cleanup.running = none := by
  unfold cleanup
  cases running : s.running <;> simp [running]

/-- A cleanup aborts the running effect's requests, and its timer. -/
theorem Sound.cleanup (sound : Sound s) : Sound s.cleanup := by
  unfold Polling.cleanup
  cases running : s.running with
  | none => exact sound
  | some e =>
    obtain ⟨-, -, ⟨j, q, last, -, mine, -⟩, -⟩ := sound.alive e running
    have known : e.id < s.effects := mine ▸ sound.numbered.1 j q last
    refine ⟨⟨fun i r listed free => ?_, ⟨sound.numbered.1, ?_⟩, sound.spaced, sound.issued, sound.answered,
      sound.ordered, sound.taken, sound.data⟩, by simp, by simp⟩
    · rw [List.mem_cons, not_or] at free
      obtain ⟨e', same, id⟩ := sound.others i r listed free.2
      rw [running, Option.some_inj] at same
      exact absurd (same ▸ id.symm) free.1
    · intro n listed
      rcases List.mem_cons.mp listed with rfl | earlier
      · exact known
      · exact sound.numbered.2 n earlier

/-- One more request at the end. -/
theorem getElem?_doFetch {i : Nat} {r : Poll τ} (listed : (s.doFetch e).requests[i]? = some r) :
    s.requests[i]? = some r ∨
      i = s.requests.length ∧ r = { effect := e.id, url := e.url, interval := e.interval, issued := s.clock } := by
  simp only [doFetch, List.getElem?_append, List.getElem?_singleton] at listed
  split at listed
  · exact .inl listed
  · split at listed
    · exact .inr ⟨by omega, (Option.some_inj.mp listed).symm⟩
    · cases listed

theorem getElem?_doFetch_of_some {i : Nat} {r : Poll τ} (listed : s.requests[i]? = some r) :
    (s.doFetch e).requests[i]? = some r := by
  rw [doFetch, List.getElem?_append_left (List.getElem?_eq_some_iff.mp listed).1, listed]

/-- The effect's requests have ended its interval ago. -/
def Due (s : Polling τ) (e : Effect) : Prop :=
  ∀ (i : Nat) (p : Poll τ), s.requests[i]? = some p → p.effect = e.id →
    ∃ t, p.ended = some t ∧ t + p.interval ≤ s.clock

theorem Kept.doFetch (kept : Kept s) (running : s.running = some e) (known : e.id < s.effects) (due : s.Due e) :
    Kept (s.doFetch e) := by
  -- the new request is the last, so only the conditions on it are new
  refine ⟨fun i r listed free => ?_, ⟨fun i r listed => ?_, kept.numbered.2⟩, fun i j p r before first second same => ?_,
    fun i r listed => ?_, fun i r listed ended => ?_, kept.ordered, fun i listed => ?_, fun d stored => ?_⟩
  · rcases getElem?_doFetch listed with old | ⟨-, rfl⟩
    · exact kept.others i r old free
    · exact ⟨e, running, rfl⟩
  · rcases getElem?_doFetch listed with old | ⟨-, rfl⟩
    · exact kept.numbered.1 i r old
    · exact known
  · rcases getElem?_doFetch first with old | ⟨rfl, -⟩
    · rcases getElem?_doFetch second with later | ⟨-, rfl⟩
      · exact kept.spaced i j p r before old later same
      · exact due i p old same
    · rcases getElem?_doFetch second with later | ⟨rfl, -⟩
      · exact absurd (List.getElem?_eq_some_iff.mp later).1 (by omega)
      · exact absurd before (Nat.lt_irrefl _)
  · rcases getElem?_doFetch listed with old | ⟨-, rfl⟩
    · exact kept.issued i r old
    · exact Nat.le_refl _
  · rcases getElem?_doFetch listed with old | ⟨-, rfl⟩
    · exact kept.answered i r old ended
    · cases ended
  · obtain ⟨r, old, answered⟩ := kept.taken i listed
    exact ⟨r, getElem?_doFetch_of_some old, answered⟩
  · obtain ⟨i, r, last, old, rest⟩ := kept.data d stored
    exact ⟨i, r, last, getElem?_doFetch_of_some old, rest⟩

theorem alive_doFetch (url : s.stored.url = some e.url) (id : e.id ∉ s.aborted) (timer : s.timer = none)
    (due : s.Due e) : Alive (s.doFetch e) e := by
  refine ⟨url, id, ⟨s.requests.length, _, List.getElem?_concat_length .., by simp [doFetch], rfl, rfl, rfl, timer⟩, ?_⟩
  intro i r listed before mine
  rcases getElem?_doFetch listed with old | ⟨rfl, -⟩
  · obtain ⟨t, ended, -⟩ := due i r old mine
    simp [ended]
  · simp [doFetch] at before

theorem Sound.commit (sound : Sound s) (url : Option String) (interval : Nat) : Sound (s.commit url interval) := by
  have cleaned := sound.cleanup
  have idle := cleanup_running s
  unfold Polling.commit
  generalize s.cleanup = s at *
  cases given : url.filter (· ≠ "") with
  | none =>
    exact ⟨⟨cleaned.others, cleaned.numbered, cleaned.spaced, cleaned.issued, cleaned.answered, cleaned.ordered, cleaned.taken,
      by simp [KeyedState.empty]⟩, by simp [idle], fun _ => cleaned.timer idle⟩
  | some url =>
    -- no request is of the effect that starts now
    have older {i : Nat} {r : Poll τ} (listed : s.requests[i]? = some r) : r.effect ≠ s.effects :=
      Nat.ne_of_lt (cleaned.numbered.1 i r listed)
    have none_due (e : Effect) (new : e.id = s.effects) : s.Due e := fun i p listed mine =>
      absurd (mine.trans new) (older listed)
    refine ⟨Kept.doFetch ⟨fun i r listed free => ?_, ⟨fun i r listed => ?_, fun n listed => ?_⟩, cleaned.spaced,
      cleaned.issued, cleaned.answered, cleaned.ordered, cleaned.taken, fun d stored => ?_⟩ rfl (Nat.lt_succ_self _) (none_due _ rfl),
      fun e running => ?_, by simp [Polling.doFetch]⟩
    · obtain ⟨e, running, -⟩ := cleaned.others i r listed free
      rw [idle] at running
      cases running
    · exact Nat.lt_succ_of_lt (cleaned.numbered.1 i r listed)
    · exact Nat.lt_succ_of_lt (cleaned.numbered.2 n listed)
    · by_cases same : s.stored.url = some url
      · simp only [same, if_true] at stored
        obtain ⟨i, r, last, listed, answer, keyed⟩ := cleaned.data d stored
        exact ⟨i, r, last, listed, answer, same.symm.trans keyed⟩
      · simp [same] at stored
    · cases running
      exact alive_doFetch rfl (fun listed => absurd (cleaned.numbered.2 _ listed) (Nat.lt_irrefl _)) (cleaned.timer idle)
        (none_due _ rfl)

theorem Sound.fire {s' : Polling τ} (sound : Sound s) (fired : s.fire = some s') : Sound s' := by
  unfold Polling.fire at fired
  split at fired
  next due e timer running =>
    rw [Option.ite_none_right_eq_some, Option.some_inj] at fired
    obtain ⟨reached, rfl⟩ := fired
    obtain ⟨url, id, ⟨j, q, last, size, mine, interval, -, armed⟩, before⟩ := sound.alive e running
    -- the timer was set by the last request, and those before it ended earlier
    have ready : s.Due e := fun i p listed same => by
      have inside := (List.getElem?_eq_some_iff.mp listed).1
      by_cases newest : i = j
      · subst newest
        rw [last, Option.some_inj] at listed
        subst listed
        rw [timer] at armed
        obtain ⟨t, ended, rfl⟩ := Option.map_eq_some_iff.mp armed.symm
        exact ⟨t, ended, interval ▸ reached⟩
      · obtain ⟨t, ended, gap⟩ := sound.spaced i j p q (by omega) listed last (same.trans mine.symm)
        exact ⟨t, ended, Nat.le_trans gap (sound.issued j q last)⟩
    have known : e.id < s.effects := mine ▸ sound.numbered.1 j q last
    refine ⟨Kept.doFetch (s := { s with timer := none }) ⟨sound.others, sound.numbered, sound.spaced, sound.issued,
      sound.answered, sound.ordered, sound.taken, sound.data⟩ running known ready, fun e' running' => ?_, fun idle => ?_⟩
    · obtain rfl : e = e' := by simpa [Polling.doFetch, running] using running'
      exact alive_doFetch url id rfl ready
    · rfl
  · cases fired

/-! ## Answers -/

/-- A request with an answer or an end it did not have. -/
structure Grown (p r : Poll τ) : Prop where
  effect : r.effect = p.effect
  url : r.url = p.url
  interval : r.interval = p.interval
  issued : r.issued = p.issued
  outcome : p.outcome.isSome → r.outcome = p.outcome
  ended : p.ended.isSome → r.ended = p.ended

theorem Grown.refl (p : Poll τ) : Grown p p := ⟨rfl, rfl, rfl, rfl, fun _ => rfl, fun _ => rfl⟩

/-- One request has grown; the others are as they were. -/
structure OneGrown (i : Nat) (r r' : Poll τ) (s s' : Polling τ) : Prop where
  old : s.requests[i]? = some r
  grown : Grown r r'
  requests : s'.requests = s.requests.set i r'
  answered : r'.ended.isSome → r'.outcome.isSome
  same : s'.clock = s.clock ∧ s'.effects = s.effects ∧ s'.running = s.running ∧ s'.aborted = s.aborted

section Grown

variable {s' : Polling τ} {i j : Nat} {r r' q : Poll τ}

theorem OneGrown.get (one : OneGrown i r r' s s') : s'.requests[i]? = some r' := by
  rw [one.requests, List.getElem?_set_self (List.getElem?_eq_some_iff.mp one.old).1]

theorem OneGrown.get_ne (one : OneGrown i r r' s s') (other : j ≠ i) : s'.requests[j]? = s.requests[j]? := by
  rw [one.requests, List.getElem?_set_ne other.symm]

theorem OneGrown.length (one : OneGrown i r r' s s') : s'.requests.length = s.requests.length := by
  rw [one.requests, List.length_set]

/-- Each request was there before. -/
theorem OneGrown.before (one : OneGrown i r r' s s') (listed : s'.requests[j]? = some q) :
    ∃ p, s.requests[j]? = some p ∧ Grown p q := by
  by_cases here : j = i
  · subst here
    rw [one.get, Option.some_inj] at listed
    exact ⟨r, one.old, listed ▸ one.grown⟩
  · rw [one.get_ne here] at listed
    exact ⟨q, listed, .refl q⟩

/-- Each request is still there. -/
theorem OneGrown.after (one : OneGrown i r r' s s') (listed : s.requests[j]? = some q) :
    ∃ p, s'.requests[j]? = some p ∧ Grown q p := by
  by_cases here : j = i
  · subst here
    rw [one.old, Option.some_inj] at listed
    exact ⟨r', one.get, listed ▸ one.grown⟩
  · exact ⟨q, (one.get_ne here).trans listed, .refl q⟩

/-- Where what is stored and taken stays the same. -/
theorem OneGrown.kept (one : OneGrown i r r' s s') (kept : Kept s) (taken : s'.taken = s.taken)
    (data : ∀ d, s'.stored.data = some d → s.stored.data = some d ∧ s'.stored.url = s.stored.url) : Kept s' := by
  obtain ⟨clock, effects, running, aborted⟩ := one.same
  -- a request that has grown still has what the conditions say of it
  refine ⟨fun j q listed free => ?_, ⟨fun j q listed => ?_, ?_⟩, fun j k p q before first second same => ?_,
    fun j q listed => ?_, fun j q listed ended => ?_, taken ▸ kept.ordered, fun j listed => ?_, fun d stored => ?_⟩
  · obtain ⟨p, old, grown⟩ := one.before listed
    rw [running, grown.effect]
    exact kept.others j p old (by rwa [← grown.effect, ← aborted])
  · obtain ⟨p, old, grown⟩ := one.before listed
    rw [effects, grown.effect]
    exact kept.numbered.1 j p old
  · rw [effects, aborted]
    exact kept.numbered.2
  · obtain ⟨p₀, old, grown⟩ := one.before first
    obtain ⟨q₀, old', grown'⟩ := one.before second
    obtain ⟨t, ended, gap⟩ := kept.spaced j k p₀ q₀ before old old' (by rw [← grown.effect, same, grown'.effect])
    exact ⟨t, by rw [grown.ended (by simp [ended]), ended], by rwa [grown.interval, grown'.issued]⟩
  · obtain ⟨p, old, grown⟩ := one.before listed
    rw [clock, grown.issued]
    exact kept.issued j p old
  · by_cases here : j = i
    · subst here
      rw [one.get, Option.some_inj] at listed
      subst listed
      exact one.answered ended
    · rw [one.get_ne here] at listed
      exact kept.answered j q listed ended
  · obtain ⟨q, old, answered⟩ := kept.taken j (taken ▸ listed)
    obtain ⟨p, new, grown⟩ := one.after old
    exact ⟨p, new, by rw [grown.outcome answered]; exact answered⟩
  · obtain ⟨before, url⟩ := data d stored
    obtain ⟨j, q, last, old, answer, keyed⟩ := kept.data d before
    obtain ⟨p, new, grown⟩ := one.after old
    exact ⟨j, p, taken ▸ last, new, by rw [grown.outcome (by simp [answer]), answer],
      by rw [url, keyed, grown.url]⟩

theorem OneGrown.alive (one : OneGrown i r r' s s') (alive : Alive s e) (timer : s'.timer = s.timer)
    (url : s'.stored.url = s.stored.url) (ended : r'.ended = r.ended ∨ r.effect ≠ e.id) : Alive s' e := by
  obtain ⟨clock, effects, running, aborted⟩ := one.same
  obtain ⟨j, q, last, size, mine, interval, named, armed⟩ := alive.last
  refine ⟨url.trans alive.url, by rw [aborted]; exact alive.id, ?_, fun k p listed before same => ?_⟩
  · obtain ⟨p, new, grown⟩ := one.after last
    refine ⟨j, p, new, by rw [one.length, size], grown.effect.trans mine, grown.interval.trans interval,
      grown.url.trans named, ?_⟩
    -- the request that grew is not the one the effect waits for, or has not ended
    have unended : p.ended = q.ended := by
      by_cases here : j = i
      · subst here
        rw [one.get, Option.some_inj] at new
        rw [one.old, Option.some_inj] at last
        subst new last
        exact ended.resolve_right (not_not_intro mine)
      · rw [one.get_ne here, last, Option.some_inj] at new
        rw [new]
    rw [timer, armed, unended]
  · obtain ⟨p₀, old, grown⟩ := one.before listed
    have done := alive.before k p₀ old (by rwa [one.length] at before) (grown.effect ▸ same)
    rw [grown.ended done]
    exact done

/-- A request that is not aborted and has not ended is the newest. -/
theorem Sound.newest (sound : Sound s) (listed : s.requests[i]? = some r) (free : r.effect ∉ s.aborted)
    (unended : r.ended = none) : ∃ e, s.running = some e ∧ r.effect = e.id ∧ r.url = e.url ∧
      r.interval = e.interval ∧ s.requests.length = i + 1 := by
  obtain ⟨e, running, same⟩ := sound.others i r listed free
  have alive := sound.alive e running
  obtain ⟨j, q, last, size, mine, interval, named, -⟩ := alive.last
  have inside := (List.getElem?_eq_some_iff.mp listed).1
  by_cases here : i = j
  · subst here
    rw [last, Option.some_inj] at listed
    subst listed
    exact ⟨e, running, mine, named, interval, size⟩
  · have done := alive.before i r listed (by omega) same.symm
    simp [unended] at done

end Grown

theorem Sound.settle {s' : Polling τ} {i : Nat} {outcome : Except String τ} (sound : Sound s)
    (settled : s.settle i outcome = some s') : Sound s' := by
  unfold Polling.settle at settled
  split at settled
  · cases settled
  next r listed =>
    rw [Option.ite_none_left_eq_some] at settled
    obtain ⟨fresh, settled⟩ := settled
    have unanswered : r.outcome = none := by simpa using fresh
    have unended : r.ended = none := by
      cases ended : r.ended with
      | none => rfl
      | some t => exact absurd (sound.answered i r listed (by simp [ended])) fresh
    have grown : Grown r { r with outcome := some outcome } :=
      ⟨rfl, rfl, rfl, rfl, fun known => absurd known fresh, fun _ => rfl⟩
    have one (t : Polling τ) (requests : t.requests = s.requests.set i { r with outcome := some outcome })
        (same : t.clock = s.clock ∧ t.effects = s.effects ∧ t.running = s.running ∧ t.aborted = s.aborted) :
        OneGrown i r { r with outcome := some outcome } s t := ⟨listed, grown, requests, fun _ => rfl, same⟩
    dsimp only at settled
    by_cases free : r.effect ∈ s.aborted
    · rw [if_pos free, Option.some_inj] at settled
      subst settled
      have step := one { s with requests := s.requests.set i { r with outcome := some outcome } } rfl ⟨rfl, rfl, rfl, rfl⟩
      exact ⟨step.kept sound.toKept rfl fun d stored => ⟨stored, rfl⟩,
        fun e running => step.alive (sound.alive e running) rfl rfl (.inl rfl), sound.timer⟩
    · rw [if_neg free] at settled
      obtain ⟨e, running, mine, named, -, size⟩ := sound.newest listed free unended
      cases outcome with
      | error message =>
        obtain rfl := Option.some_inj.mp settled
        have step := one { s with
          requests := s.requests.set i { r with outcome := some (.error message) }
          stored := { s.stored with loading := false, error := some message } } rfl ⟨rfl, rfl, rfl, rfl⟩
        exact ⟨step.kept sound.toKept rfl fun d stored => ⟨stored, rfl⟩,
          fun e running => step.alive (sound.alive e running) rfl rfl (.inl rfl), sound.timer⟩
      | ok data =>
        obtain rfl := Option.some_inj.mp settled
        have step := one { s with requests := s.requests.set i { r with outcome := some (.ok data) } } rfl ⟨rfl, rfl, rfl, rfl⟩
        have kept := step.kept sound.toKept rfl fun d stored => ⟨stored, rfl⟩
        -- every response taken before is of an older request
        have older : ∀ j ∈ s.taken, j < i := fun j before => by
          obtain ⟨q, old, answered⟩ := sound.taken j before
          have inside := (List.getElem?_eq_some_iff.mp old).1
          have other : j ≠ i := by
            rintro rfl
            rw [listed, Option.some_inj] at old
            subst old
            exact fresh answered
          omega
        refine ⟨⟨kept.others, kept.numbered, kept.spaced, kept.issued, kept.answered, ?_, fun j before => ?_,
          fun d stored => ?_⟩, fun e' running' => ?_, sound.timer⟩
        · exact List.pairwise_append.mpr ⟨sound.ordered, List.pairwise_singleton _ _,
            fun j before k last => List.mem_singleton.mp last ▸ older j before⟩
        · rcases List.mem_append.mp before with earlier | last
          · exact kept.taken j earlier
          · rw [List.mem_singleton.mp last]
            exact ⟨_, step.get, rfl⟩
        · obtain rfl : data = d := by simpa using stored
          exact ⟨i, _, by simp, step.get, rfl, rfl⟩
        · obtain rfl : e = e' := by simpa [running] using running'
          obtain ⟨url, id, last, before⟩ := step.alive (sound.alive e running) rfl rfl (.inl rfl)
          exact ⟨congrArg some named, id, last, before⟩

theorem Sound.finish {s' : Polling τ} {i : Nat} (sound : Sound s) (finished : s.finish i = some s') : Sound s' := by
  unfold Polling.finish at finished
  split at finished
  · cases finished
  next r listed =>
    rw [Option.ite_none_left_eq_some] at finished
    obtain ⟨fresh, finished⟩ := finished
    rw [not_or] at fresh
    have unended : r.ended = none := by simpa using fresh.2
    have answered : r.outcome.isSome := by
      cases known : r.outcome <;> simp_all
    have grown : Grown r { r with ended := some s.clock } :=
      ⟨rfl, rfl, rfl, rfl, fun _ => rfl, fun known => absurd known fresh.2⟩
    have one (t : Polling τ) (requests : t.requests = s.requests.set i { r with ended := some s.clock })
        (same : t.clock = s.clock ∧ t.effects = s.effects ∧ t.running = s.running ∧ t.aborted = s.aborted) :
        OneGrown i r { r with ended := some s.clock } s t := ⟨listed, grown, requests, fun _ => answered, same⟩
    dsimp only at finished
    -- the response of an aborted effect sets no timer
    by_cases free : r.effect ∈ s.aborted
    · rw [if_pos free, Option.some_inj] at finished
      subst finished
      have step := one { s with requests := s.requests.set i { r with ended := some s.clock } } rfl ⟨rfl, rfl, rfl, rfl⟩
      refine ⟨step.kept sound.toKept rfl fun d stored => ⟨stored, rfl⟩, fun e running => ?_, sound.timer⟩
      have alive := sound.alive e running
      exact step.alive alive rfl rfl (.inr fun same => alive.id (same ▸ free))
    · rw [if_neg free, Option.some_inj] at finished
      subst finished
      obtain ⟨e, running, mine, named, interval, size⟩ := sound.newest listed free unended
      have step := one { s with
        requests := s.requests.set i { r with ended := some s.clock }, timer := some (s.clock + r.interval) }
        rfl ⟨rfl, rfl, rfl, rfl⟩
      refine ⟨step.kept sound.toKept rfl fun d stored => ⟨stored, rfl⟩, fun e' running' => ?_, fun idle => ?_⟩
      · obtain rfl : e = e' := by simpa [running] using running'
        have alive := sound.alive e running
        refine ⟨alive.url, alive.id, ⟨i, _, step.get, by rw [step.length, size], mine, interval, named, by simp [interval]⟩,
          fun k p listed before same => ?_⟩
        obtain ⟨p₀, old, grown⟩ := step.before listed
        have done := alive.before k p₀ old (by rwa [step.length] at before) (grown.effect ▸ same)
        rw [grown.ended done]
        exact done
      · rw [running] at idle
        cases idle

end Steps

/-! ## Every run -/

theorem Sound.step {s s' : Polling τ} {input : Input τ} (sound : Sound s) (next : s.step input = some s') : Sound s' := by
  cases input with
  | wait d =>
    obtain rfl := Option.some_inj.mp next
    refine ⟨⟨sound.others, sound.numbered, sound.spaced, fun i r listed => ?_, sound.answered, sound.ordered, sound.taken,
      sound.data⟩, fun e running => ?_, sound.timer⟩
    · exact Nat.le_add_right_of_le (sound.issued i r listed)
    · obtain ⟨url, id, last, before⟩ := sound.alive e running
      exact ⟨url, id, last, before⟩
  | commit url interval => exact Option.some_inj.mp next ▸ sound.commit url interval
  | unmount => exact Option.some_inj.mp next ▸ sound.cleanup
  | settle i outcome => exact sound.settle next
  | finish i => exact sound.finish next
  | fire => exact sound.fire next

theorem sound_run {s : Polling τ} {inputs : List (Input τ)} (run : Transition.exec Polling.step {} inputs = some s) :
    Sound s :=
  have permitted : Transition.Along (Polling.step (τ := τ)) (fun _ _ => True) {} inputs :=
    Transition.along_of_forall (p := fun _ => True) fun _ _ => trivial
  Transition.exec_invariant (fun _ _ _ sound _ next => sound.step next) sound_initial permitted run

/-- What a render shows is its own URL's and the last response taken, requests never overlap nor come sooner than
their interval, and a running effect always has a request under way or one to come. -/
theorem polling_run {s : Polling τ} {inputs : List (Input τ)} (run : Transition.exec Polling.step {} inputs = some s) :
    (∀ url d, (s.shown url).data = some d → ∃ i r, s.taken.getLast? = some i ∧ s.requests[i]? = some r ∧
      url = some r.url ∧ r.outcome = some (.ok d)) ∧
    s.taken.Pairwise (· < ·) ∧
    (∀ (i j : Nat) (p r : Poll τ), i < j → s.requests[i]? = some p → s.requests[j]? = some r → p.effect = r.effect →
      ∃ t, p.ended = some t ∧ t + p.interval ≤ r.issued) ∧
    (∀ (i j : Nat) (p r : Poll τ), s.requests[i]? = some p → s.requests[j]? = some r → p.effect ∉ s.aborted →
      r.effect ∉ s.aborted → p.ended = none → r.ended = none → i = j) ∧
    ∀ e, s.running = some e → s.timer.isSome ∨
      ∃ (i : Nat) (r : Poll τ), s.requests[i]? = some r ∧ r.effect = e.id ∧ r.ended = none := by
  -- all but the first part are parts of the invariant
  have sound := sound_run run
  refine ⟨fun url d shows => ?_, sound.ordered, sound.spaced, fun i j p r first second free free' open' open'' => ?_,
    fun e running => ?_⟩
  · unfold shown at shows
    split at shows
    · next same =>
      obtain ⟨i, r, last, listed, answer, keyed⟩ := sound.data d shows
      exact ⟨i, r, last, listed, same ▸ keyed, answer⟩
    · cases shows
  · obtain ⟨e, running, -, -, -, size⟩ := sound.newest first free open'
    obtain ⟨e', running', -, -, -, size'⟩ := sound.newest second free' open''
    omega
  · obtain ⟨i, r, last, -, mine, -, -, armed⟩ := (sound.alive e running).last
    cases ended : r.ended with
    | none => exact .inr ⟨i, r, last, mine, ended⟩
    | some t => exact .inl (by simp [armed, ended])

/-- A first request ends while its effect is aborted, and the second URL's data is shown. -/
theorem polling_run_switch :
    ∃ s : Polling Nat, Transition.exec Polling.step {} [.commit (some "/a") 10, .commit (some "/b") 10,
      .settle 1 (.ok 2), .settle 0 (.ok 1), .finish 1, .wait 10, .fire] = some s ∧
      (s.shown (some "/b")).data = some 2 ∧
      ∀ url d, (s.shown url).data = some d → ∃ i r, s.taken.getLast? = some i ∧ s.requests[i]? = some r ∧
        url = some r.url ∧ r.outcome = some (.ok d) := by
  have run : Transition.exec Polling.step ({} : Polling Nat) [.commit (some "/a") 10, .commit (some "/b") 10,
      .settle 1 (.ok 2), .settle 0 (.ok 1), .finish 1, .wait 10, .fire] = some _ := rfl
  exact ⟨_, run, rfl, (polling_run run).1⟩

end Polling

end Dockgraph.Frontend
