import Dockgraph.Api.FollowerTracking

/-!
# Who is followed

The events that wait to be handled say what becomes of a container, so what follows from the
followers and these events is what is running. A `kill` event says nothing: the handler may take
it for an end only when the end has come. A goroutine whose stream ended takes its entry out of the map
late, but as long as the entry is its own the end of the container is still waiting to be handled.
-/
namespace Dockgraph.Api

open Collector Transition

/-! ## Scope and labels -/

theorem get_attributes (d : Docker) (id : String) {key : String} (other : key ≠ "name") :
    (d.attributes id).get key = (d.labels id).get key := by
  change (Finmap.lookup key ((d.labels id).entries.insert "name" (d.name id))).getD "" = _
  rw [Finmap.lookup_insert_of_ne _ other]
  rfl

/-- An event carries the labels, so it is in scope when its container is. -/
theorem includeContainer_attributes (scope : LogScope) (d : Docker) (id : String) :
    scope.includeContainer (d.attributes id) = scope.includeContainer (d.labels id) := by
  have label (key : String) (other : key ≠ "name") := get_attributes d id other
  have self : isSelf (d.attributes id) = isSelf (d.labels id) := by
    rw [isSelf, isSelf, label selfExcludeLabel (by decide)]
  have task : isTaskContainer (d.attributes id) = isTaskContainer (d.labels id) := by
    rw [isTaskContainer, isTaskContainer, label swarmTaskIDLabel (by decide)]
  have project : projectOf (d.attributes id) = projectOf (d.labels id) := by
    rw [projectOf, projectOf, label composeProjectLabel (by decide),
      label stackNamespaceLabel (by decide)]
  rw [LogScope.includeContainer, LogScope.includeContainer, self, task, project]

/-! ## The followers -/

namespace LogAggregator

variable (a : LogAggregator)

@[simp]
theorem mem_addSource (id name : String) {k : String} :
    k ∈ (a.addSource id name).followers ↔ k = id ∨ k ∈ a.followers := by
  unfold addSource
  split
  next held =>
    constructor
    · exact .inr
    · rintro (rfl | other)
      · exact held
      · exact other
  · exact AList.mem_insert a.followers

@[simp]
theorem mem_remove (id : String) {k : String} :
    k ∈ (a.remove id).followers ↔ k ≠ id ∧ k ∈ a.followers :=
  AList.mem_erase

theorem mem_forget (f : Follower) {k : String} : k ∈ (a.forget f).followers ↔
    k ∈ a.followers ∧ ¬(k = f.id ∧ a.cancelled f = false) := by
  unfold forget cancelled
  dsimp only
  split
  next own => simp [AList.mem_erase, own, and_comm]
  next taken => simp [taken]

theorem mem_foldl_addSource (services : List Swarm.Service) {k : String} :
    k ∈ (services.foldl (fun a svc => a.addSource svc.id svc.name) a).followers ↔
      k ∈ a.followers ∨ ∃ svc ∈ services, svc.id = k := by
  induction services generalizing a with
  | nil => simp
  | cons svc services ih =>
    rw [List.foldl_cons, ih, mem_addSource]
    simp only [List.mem_cons, exists_eq_or_imp, eq_comm (a := k)]
    tauto

theorem not_cancelled_iff {f : Follower} : a.cancelled f = false ↔ a.followers.lookup f.id = some f.token := by
  rw [cancelled, decide_eq_false_iff_not, not_not]

theorem mem_of_not_cancelled {f : Follower} (own : a.cancelled f = false) : f.id ∈ a.followers :=
  AList.lookup_isSome.mp (by rw [a.not_cancelled_iff.mp own]; rfl)

/-- New goroutines have new tokens, and no entry comes back under an old one. -/
structure Later (b : LogAggregator) : Prop where
  next : a.nextToken ≤ b.nextToken
  goroutines : ∀ f ∈ b.goroutines, f ∈ a.goroutines ∨ f.token < b.nextToken
  entry : ∀ id token, token < a.nextToken → b.followers.lookup id = some token → a.followers.lookup id = some token

variable {a} {b c : LogAggregator}

theorem Later.refl : a.Later a := ⟨le_refl _, fun _ => .inl, fun _ _ _ => id⟩

theorem Later.trans (first : a.Later b) (second : b.Later c) : a.Later c where
  next := first.next.trans second.next
  goroutines f member := (second.goroutines f member).elim
    (fun old => (first.goroutines f old).imp_right fun less => less.trans_le second.next) .inr
  entry id token less found := first.entry id token less (second.entry id token (less.trans_le first.next) found)

theorem later_addSource (id name : String) : a.Later (a.addSource id name) := by
  by_cases held : id ∈ a.followers
  · rw [addSource, if_pos held]
    exact .refl
  · refine ⟨?_, fun f member => ?_, fun k token less found => ?_⟩
    · rw [addSource, if_neg held]
      exact Nat.le_succ _
    · rw [addSource, if_neg held] at member ⊢
      refine (List.mem_append.mp member).imp_right fun new => ?_
      rw [List.mem_singleton.mp new]
      exact Nat.lt_succ_self _
    · exact ((a.lookup_addSource held).mp found).resolve_right fun new => less.ne new.2

theorem later_foldl_addSource (services : List Swarm.Service) :
    a.Later (services.foldl (fun a svc => a.addSource svc.id svc.name) a) := by
  induction services generalizing a with
  | nil => exact .refl
  | cons svc services ih => exact (later_addSource svc.id svc.name).trans ih

theorem later_remove (id : String) : a.Later (a.remove id) :=
  ⟨le_refl _, fun _ => .inl, fun _ _ _ found => (a.lookup_remove.mp found).1⟩

theorem later_forget (f : Follower) : a.Later (a.forget f) :=
  ⟨le_refl _, fun _ left => .inl (List.mem_of_mem_erase left), fun _ _ _ found => (a.lookup_forget.mp found).1⟩

/-- A follower that was cancelled stays so. -/
theorem Later.not_cancelled {f : Follower} (later : a.Later b) (used : f.token < a.nextToken)
    (own : b.cancelled f = false) : a.cancelled f = false :=
  a.not_cancelled_iff.mpr (later.entry f.id f.token used (b.not_cancelled_iff.mp own))

end LogAggregator

/-! ## What the events say -/

/-- The container is over. -/
def Action.ends : Action → Bool
  | .die | .stop | .destroy => true
  | _ => false

def Message.about (m : Message) (id : String) : Bool := m.type = .container ∧ m.actor = id

/-- Whether a container runs after an event, if it did as told before. -/
def lastState (id : String) (runs : Bool) (m : Message) : Bool :=
  if m.about id then m.action = .start ∨ (runs ∧ !m.action.ends) else runs

/-- Whether a container runs after the events. -/
def settled (id : String) (runs : Bool) (events : List Message) : Bool :=
  events.foldl (lastState id) runs

section Settled

variable {id : String} {runs : Bool} {events : List Message}

theorem settled_append (more : List Message) :
    settled id runs (events ++ more) = settled id (settled id runs events) more :=
  List.foldl_append

theorem settled_other (other : ∀ m ∈ events, m.about id = false) : settled id runs events = runs := by
  induction events with
  | nil => rfl
  | cons m events ih =>
    rw [List.forall_mem_cons] at other
    have same : lastState id runs m = runs := by rw [lastState, other.1]; rfl
    rw [settled, List.foldl_cons, same]
    exact ih other.2

/-- After an end it does not matter what ran before it. -/
theorem settled_of_end (finished : ∃ m ∈ events, m.about id ∧ m.action.ends) (other : Bool) :
    settled id runs events = settled id other events := by
  induction events generalizing runs other with
  | nil =>
    obtain ⟨m, member, -⟩ := finished
    cases member
  | cons m events ih =>
    rw [settled, settled, List.foldl_cons, List.foldl_cons]
    by_cases first : m.about id ∧ m.action.ends
    · simp [lastState, first.1, first.2]
    · obtain ⟨k, member, last⟩ := finished
      rcases List.mem_cons.mp member with rfl | later
      · exact absurd last first
      · exact ih ⟨k, later, last⟩ _

/-- Without an end of it, a container that runs goes on. -/
theorem settled_true (endless : ∀ m ∈ events, m.about id = true → m.action.ends = false) :
    settled id true events = true := by
  induction events with
  | nil => rfl
  | cons m events ih =>
    rw [List.forall_mem_cons] at endless
    have same : lastState id true m = true := by
      rw [lastState]
      split
      next about => simp [endless.1 about]
      next => rfl
    rw [settled, List.foldl_cons, same]
    exact ih endless.2

end Settled

/-! ## Coverage -/

/-- The containers the handler still has to seed. -/
def LogStream.unseeded (s : LogStream) : List String :=
  match s.phase with
  | .seeding summaries => summaries.map fun c => c.id
  | _ => []

/-- What is followed, and what the list and the events will have followed, is what runs. -/
structure Covers (d : Docker) (scope : LogScope) (s : LogStream) : Prop where
  inScope : ∀ id, s.Followed id → d.isService id = false → scope.includeContainer (d.labels id)
  /-- Between the list call and the subscription. -/
  seeded : s.phase ≠ .watching → ∀ id, d.isService id = false → scope.includeContainer (d.labels id) = true →
    (s.Followed id ∨ id ∈ s.unseeded ↔ s.phase ≠ .connected ∧ id ∈ s.running)
  settles : s.phase = .watching → ∀ id, d.isService id = false →
    scope.includeContainer (d.labels id) = true → settled id (s.Followed id) s.events = decide (id ∈ s.running)
  quiet : s.phase ≠ .watching → s.events = []
  running : ∀ id ∈ s.running, d.isService id = false
  summaries : ∀ rest, s.phase = .seeding rest → ∀ c ∈ rest, c.labels = d.labels c.id
  containers : ∀ m ∈ s.events, m.type = .container →
    d.isService m.actor = false ∧ m.attributes = d.attributes m.actor
  services : ∀ svc ∈ s.services, d.isService svc.id
  serviceEvents : ∀ m ∈ s.events, m.type = .service → d.isService m.actor
  started : ∀ f ∈ s.agg.goroutines, f.token < s.agg.nextToken
  ended : ∀ f ∈ s.returning, f.token < s.agg.nextToken
  /-- Where a goroutine's stream ended and its entry is still there, the end was sent. -/
  returned : ∀ f ∈ s.returning, d.isService f.id = false → s.agg.cancelled f = false →
    ∃ m ∈ s.events, m.about f.id ∧ m.action.ends

/-- The handler has listed the containers and not subscribed yet. -/
def LogStream.Preparing (s : LogStream) : Prop := s.phase ≠ .connected ∧ s.phase ≠ .watching

/-- The list call fails only where no container in scope runs, none of these starts or ends between it and
the subscription, and a `kill` event is handled with the end of its container behind it. -/
def Timely (d : Docker) (scope : LogScope) (s : LogStream) : LogStream.Step → Prop
  | .list listed => listed = false → ∀ id ∈ s.running, scope.includeContainer (d.labels id) = false
  | .change (.start id) | .change (.exit id _) => s.Preparing → scope.includeContainer (d.labels id) = false
  | .handle _ => ∀ m rest, s.events = m :: rest → m.type = .container → m.action = .kill →
      scope.includeContainer m.attributes → ∃ e ∈ rest, e.about m.actor ∧ e.action.ends
  | .change _ | .seed | .seedServices _ | .subscribe | .streamEnds _ | .forget _ => True

section Steps

variable {d : Docker} {scope : LogScope} {s t : LogStream}

/-- Docker changes and sends what happened, if anybody listens. -/
theorem covers_emit {n : LogStream} {messages : List Message} (before : Covers d scope s)
    (phase : n.phase = s.phase) (events : n.events = s.events) (agg : n.agg = s.agg)
    (returning : n.returning = s.returning) (running : ∀ id ∈ n.running, d.isService id = false)
    (services : ∀ svc ∈ n.services, d.isService svc.id)
    (containers : ∀ m ∈ messages, m.type = .container →
      d.isService m.actor = false ∧ m.attributes = d.attributes m.actor)
    (serviceEvents : ∀ m ∈ messages, m.type = .service → d.isService m.actor)
    (still : s.Preparing → ∀ id, scope.includeContainer (d.labels id) = true →
      (id ∈ n.running ↔ id ∈ s.running))
    (settles : ∀ id, d.isService id = false →
      settled id (id ∈ s.running) messages = decide (id ∈ n.running)) :
    Covers d scope (n.emit messages) := by
  have followed (id : String) : n.Followed id ↔ s.Followed id := by
    rw [LogStream.Followed, LogStream.Followed, agg]
  have started : ∀ f ∈ n.agg.goroutines, f.token < n.agg.nextToken := agg ▸ before.started
  have ended : ∀ f ∈ n.returning, f.token < n.agg.nextToken := agg ▸ returning ▸ before.ended
  have returned : ∀ f ∈ n.returning, d.isService f.id = false → n.agg.cancelled f = false →
      ∃ m ∈ n.events, m.about f.id ∧ m.action.ends := agg ▸ returning ▸ events ▸ before.returned
  unfold LogStream.emit
  split
  next watching =>
    constructor
    · exact fun id held => before.inScope id ((followed id).mp held)
    · exact fun away => absurd watching away
    · intro _ id container inside
      change settled id (n.Followed id) (n.events ++ messages) = decide (id ∈ n.running)
      have old := before.settles (phase ▸ watching) id container inside
      rw [settled_append, events, decide_eq_decide.mpr (followed id), old]
      exact settles id container
    · exact fun away => absurd watching away
    · exact running
    · intro rest seeding
      exact before.summaries rest (phase ▸ seeding)
    · intro m member
      rcases List.mem_append.mp member with old | new
      · exact before.containers m (events ▸ old)
      · exact containers m new
    · exact services
    · intro m member
      rcases List.mem_append.mp member with old | new
      · exact before.serviceEvents m (events ▸ old)
      · exact serviceEvents m new
    · exact started
    · exact ended
    · intro f member container own
      obtain ⟨m, sent, about⟩ := returned f member container own
      exact ⟨m, List.mem_append_left messages sent, about⟩
  next away =>
    have seeded : ∀ id, d.isService id = false → scope.includeContainer (d.labels id) = true →
        (n.Followed id ∨ id ∈ n.unseeded ↔ n.phase ≠ .connected ∧ id ∈ n.running) := by
      intro id container inside
      have old := before.seeded (phase ▸ away) id container inside
      rw [followed, LogStream.unseeded, phase]
      refine old.trans (and_congr_right fun listed => ?_)
      exact (still ⟨listed, phase ▸ away⟩ id inside).symm
    exact {
      inScope := fun id held => before.inScope id ((followed id).mp held)
      seeded := fun _ => seeded
      settles := fun watching => absurd watching away
      quiet := fun _ => events ▸ before.quiet (phase ▸ away)
      running
      summaries := fun rest seeding => before.summaries rest (phase ▸ seeding)
      containers := by rw [events]; exact before.containers
      services
      serviceEvents := by rw [events]; exact before.serviceEvents
      started
      ended
      returned }

theorem lastState_containerMessage (id k : String) (runs : Bool) (action : Action) :
    lastState k runs (d.containerMessage id action) =
      if id = k then decide (action = .start ∨ (runs ∧ !action.ends)) else runs := by
  simp [lastState, Message.about, Docker.containerMessage]

/-- The event of a service. -/
theorem covers_emitService {n : LogStream} {action : Action} {id : String} (before : Covers d scope s)
    (phase : n.phase = s.phase) (events : n.events = s.events) (agg : n.agg = s.agg)
    (returning : n.returning = s.returning) (running : n.running = s.running)
    (service : d.isService id = true) (services : ∀ svc ∈ n.services, d.isService svc.id) :
    Covers d scope (n.emit [{ type := .service, action, actor := id }]) := by
  refine covers_emit before phase events agg returning (running ▸ before.running) services ?_ ?_
    (fun _ id _ => by rw [running]) ?_
  -- the message is no container's
  · intro m member container
    cases List.mem_singleton.mp member
    cases container
  · intro m member _
    cases List.mem_singleton.mp member
    exact service
  · intro k _
    -- and settles no container
    rw [running, settled_other]
    intro m member
    rw [List.mem_singleton.mp member]
    rfl

/-- Events of one container that is no service. -/
theorem covers_emitContainer (actions : List Action) {n : LogStream} {id : String}
    (before : Covers d scope s) (phase : n.phase = s.phase) (events : n.events = s.events)
    (agg : n.agg = s.agg) (returning : n.returning = s.returning) (services : n.services = s.services)
    (container : d.isService id = false) (others : ∀ k, k ≠ id → (k ∈ n.running ↔ k ∈ s.running))
    (still : s.Preparing → scope.includeContainer (d.labels id) = true → (id ∈ n.running ↔ id ∈ s.running))
    (settles : settled id (id ∈ s.running) (actions.map (d.containerMessage id)) =
      decide (id ∈ n.running)) :
    Covers d scope (n.emit (actions.map (d.containerMessage id))) := by
  refine covers_emit before phase events agg returning ?_ (services ▸ before.services) ?_ ?_ ?_ ?_
  · intro k runs
    -- what runs besides this container has not changed
    by_cases here : k = id
    · rwa [here]
    · exact before.running k ((others k here).mp runs)
  · intro m member _
    obtain ⟨action, -, rfl⟩ := List.mem_map.mp member
    exact ⟨container, rfl⟩
  · intro m member service
    obtain ⟨action, -, rfl⟩ := List.mem_map.mp member
    cases service
  · intro preparing k inside
    by_cases here : k = id
    · rw [here] at inside ⊢
      exact still preparing inside
    · exact others k here
  · intro k _
    by_cases here : k = id
    · rw [here]
      exact settles
    -- the events say nothing about another container
    · rw [settled_other, decide_eq_decide.mpr (others k here)]
      intro m member
      obtain ⟨action, -, rfl⟩ := List.mem_map.mp member
      exact decide_eq_false fun own => here own.2.symm

/-- What starts or ends between the list call and the subscription is out of scope. -/
theorem unchanged_of_timely {id : String} {new : Prop}
    (timely : s.Preparing → scope.includeContainer (d.labels id) = false) :
    s.Preparing → scope.includeContainer (d.labels id) = true → (new ↔ id ∈ s.running) := by
  intro preparing inside
  rw [timely preparing] at inside
  cases inside

theorem covers_start {id : String} (before : Covers d scope s) (timely : Timely d scope s (.change (.start id)))
    (step : s.change d (.start id) = some t) : Covers d scope t := by
  rw [LogStream.change] at step
  split at step
  · cases step
  next free =>
    cases step
    rw [not_or, Bool.not_eq_true] at free
    -- the last event of the container says that it runs
    refine covers_emitContainer [.start] before rfl rfl rfl rfl rfl free.1 ?_ (unchanged_of_timely timely) ?_
    · intro k other
      simp [other]
    · simp [settled, lastState_containerMessage]

theorem covers_exit {id : String} {stopped : Bool} (before : Covers d scope s)
    (timely : Timely d scope s (.change (.exit id stopped))) (step : s.change d (.exit id stopped) = some t) :
    Covers d scope t := by
  rw [LogStream.change] at step
  split at step
  next runs =>
    cases step
    have container := before.running id runs
    have others : ∀ k, k ≠ id → (k ∈ s.running.filter (fun j => j ≠ id) ↔ k ∈ s.running) :=
      fun k other => by simp [other]
    -- `die` alone, and `die` before `stop`, both end it
    cases stopped with
    | false =>
      refine covers_emitContainer [.die] before rfl rfl rfl rfl rfl container others (unchanged_of_timely timely) ?_
      simp [settled, lastState_containerMessage, Action.ends]
    | true =>
      refine covers_emitContainer [.die, .stop] before rfl rfl rfl rfl rfl container others
        (unchanged_of_timely timely) ?_
      simp [settled, lastState_containerMessage, Action.ends]
  · cases step

theorem covers_change {c : Change} (before : Covers d scope s) (timely : Timely d scope s (.change c))
    (step : s.change d c = some t) : Covers d scope t := by
  cases c with
  | start id => exact covers_start before timely step
  | exit id stopped => exact covers_exit before timely step
  | signal id =>
    rw [LogStream.change] at step
    split at step
    next runs =>
      cases step
      refine covers_emitContainer [.kill] before rfl rfl rfl rfl rfl (before.running id runs)
        -- a signal says nothing about what runs
        (fun k _ => Iff.rfl) (fun _ _ => Iff.rfl) ?_
      simp [settled, lastState_containerMessage, Action.ends]
    · cases step
  | destroy id =>
    rw [LogStream.change] at step
    split at step
    · cases step
    next free =>
      cases step
      rw [not_or, Bool.not_eq_true] at free
      refine covers_emitContainer [.destroy] before rfl rfl rfl rfl rfl free.1
        (fun k _ => Iff.rfl) (fun _ _ => Iff.rfl) ?_
      simp [settled, lastState_containerMessage, Action.ends, free.2]
  | other id =>
    rw [LogStream.change] at step
    split at step
    · cases step
    next container =>
      cases step
      rw [Bool.not_eq_true] at container
      refine covers_emitContainer [.other] before rfl rfl rfl rfl rfl container
        (fun k _ => Iff.rfl) (fun _ _ => Iff.rfl) ?_
      simp [settled, lastState_containerMessage, Action.ends]
  | createService svc =>
    rw [LogStream.change] at step
    split at step
    next service =>
      cases step
      refine covers_emitService before rfl rfl rfl rfl rfl service fun other member => ?_
      rcases List.mem_append.mp member with old | new
      · exact before.services other old
      · rwa [List.mem_singleton.mp new]
    · cases step
  | removeService id =>
    rw [LogStream.change] at step
    split at step
    next service =>
      cases step
      exact covers_emitService before rfl rfl rfl rfl rfl service fun other member =>
        before.services other (List.mem_filter.mp member).1
    · cases step

/-! ### Before the subscription -/

theorem started_later {n : LogStream} (before : Covers d scope s) (later : s.agg.Later n.agg) :
    ∀ f ∈ n.agg.goroutines, f.token < n.agg.nextToken := fun f member =>
  (later.goroutines f member).elim (fun old => (before.started f old).trans_le later.next) id

/-- Only the followers change before the subscription, and no goroutine has returned. -/
theorem covers_preparing {n : LogStream} (before : Covers d scope s) (away : s.phase ≠ .watching)
    (away' : n.phase ≠ .watching) (running : n.running = s.running) (services : n.services = s.services)
    (quiet : n.events = s.events) (returning : ∀ f ∈ n.returning, f ∈ s.returning) (later : s.agg.Later n.agg)
    (summaries : ∀ rest, n.phase = .seeding rest → ∀ c ∈ rest, c.labels = d.labels c.id)
    (inScope : ∀ id, n.Followed id → d.isService id = false →
      s.Followed id ∨ scope.includeContainer (d.labels id))
    (seeded : ∀ id, d.isService id = false → scope.includeContainer (d.labels id) = true →
      (n.Followed id ∨ id ∈ n.unseeded ↔ n.phase ≠ .connected ∧ id ∈ s.running)) :
    Covers d scope n where
  inScope id held container := (inScope id held container).elim
    (fun old => before.inScope id old container) fun inside => inside
  seeded _ := by rw [running]; exact seeded
  settles watching := absurd watching away'
  quiet _ := quiet.trans (before.quiet away)
  running := by rw [running]; exact before.running
  summaries
  containers := by rw [quiet]; exact before.containers
  services := by rw [services]; exact before.services
  serviceEvents := by rw [quiet]; exact before.serviceEvents
  started := started_later before later
  ended f member := (before.ended f (returning f member)).trans_le later.next
  returned f member container own := by
    have old := returning f member
    rw [quiet]
    exact before.returned f old container (later.not_cancelled (before.ended f old) own)

theorem covers_list {listed : Bool} (before : Covers d scope s) (timely : Timely d scope s (.list listed))
    (step : s.list d listed = some t) : Covers d scope t := by
  unfold LogStream.list at step
  split at step
  next connected =>
    cases step
    have away : s.phase ≠ .watching := by rw [connected]; exact nofun
    refine covers_preparing before away nofun rfl rfl rfl (fun f => id) .refl ?_ (fun id held _ => .inl held) ?_
    -- the summaries carry the labels of their containers
    · rintro rest seeding c member
      cases seeding
      split at member
      · obtain ⟨id, -, rfl⟩ := List.mem_map.mp member
        rfl
      · cases member
    -- nothing is followed, and what runs is listed
    · intro id container inside
      have none : ¬s.Followed id := fun held =>
        ((before.seeded away id container inside).mp (.inl held)).1 connected
      refine (or_iff_right none).trans (Iff.trans ?_ (and_iff_right nofun).symm)
      cases listed with
      | true => simp [LogStream.unseeded, LogStream.containerList]
      | false =>
        refine iff_of_false List.not_mem_nil fun runs => ?_
        rw [timely rfl id runs] at inside
        cases inside
  · cases step

theorem covers_seed (before : Covers d scope s) (step : s.seed scope = some t) : Covers d scope t := by
  unfold LogStream.seed at step
  split at step
  next c rest seeding =>
    cases step
    have labels := before.summaries _ seeding
    rw [List.forall_mem_cons] at labels
    have away : s.phase ≠ .watching := by rw [seeding]; exact nofun
    have followed (id : String) : id ∈ (if scope.includeContainer c.labels then s.agg.addSource c.id c.name
        else s.agg).followers ↔ s.Followed id ∨ id = c.id ∧ scope.includeContainer c.labels = true := by
      split
      next inside => rw [LogAggregator.mem_addSource, or_comm, and_iff_left inside]; rfl
      next outside => exact (or_iff_left fun new => outside new.2).symm
    refine covers_preparing before away nofun rfl rfl rfl (fun f => id) ?_ ?_ ?_ ?_
    · dsimp only
      split
      · exact LogAggregator.later_addSource c.id c.name
      · exact .refl
    · rintro _ ⟨⟩
      exact labels.2
    · intro id held _
      -- a new follower is in scope by its summary, the others were before
      rcases (followed id).mp held with old | ⟨rfl, inside⟩
      · exact .inl old
      · exact .inr (labels.1 ▸ inside)
    · intro id container inside
      have old := before.seeded away id container inside
      rw [LogStream.unseeded, seeding] at old
      refine Iff.trans ?_ ((or_congr_right List.mem_cons.symm).trans (old.trans (and_congr_left' (iff_of_true nofun nofun))))
      change id ∈ LogAggregator.followers _ ∨ id ∈ rest.map _ ↔ _
      rw [followed, or_assoc]
      refine or_congr_right (or_congr_left (and_iff_left_of_imp ?_))
      rintro rfl
      rw [labels.1]
      exact inside
  · cases step

/-- Services bring in followers of services only. -/
theorem followed_addServices {listed : Bool} {id : String}
    (services : ∀ svc ∈ s.services, d.isService svc.id) (container : d.isService id = false) :
    (s.addServices scope listed).Followed id ↔ s.Followed id := by
  unfold LogStream.addServices
  split
  · change id ∈ LogAggregator.followers _ ↔ _
    rw [LogAggregator.mem_foldl_addSource]
    constructor
    · rintro (old | ⟨svc, member, rfl⟩)
      · exact old
      -- no service has the ID of a container
      · have service := services svc (List.mem_filter.mp member).1
        rw [container] at service
        cases service
    · exact .inl
  · rfl

theorem addServices_frame (s : LogStream) (scope : LogScope) (listed : Bool) :
    s.addServices scope listed = { s with agg := (s.addServices scope listed).agg } ∧
      s.agg.Later (s.addServices scope listed).agg := by
  unfold LogStream.addServices
  split
  · exact ⟨rfl, LogAggregator.later_foldl_addSource _⟩
  · exact ⟨rfl, .refl⟩

theorem covers_seedServices {listed : Bool} (before : Covers d scope s)
    (step : s.seedServices scope listed = some t) : Covers d scope t := by
  unfold LogStream.seedServices at step
  split at step
  next seeding =>
    cases step
    obtain ⟨frame, later⟩ := addServices_frame s scope listed
    have away : s.phase ≠ .watching := by rw [seeding]; exact nofun
    have followed (id : String) (container : d.isService id = false) :
        (s.addServices scope listed).Followed id ↔ s.Followed id := followed_addServices before.services container
    rw [frame]
    refine covers_preparing before away nofun rfl rfl rfl (fun f => id) later nofun
      (fun id held container => .inl ((followed id container).mp held)) fun id container inside => ?_
    have old := before.seeded away id container inside
    rw [LogStream.unseeded, seeding] at old
    exact (or_congr_left (followed id container)).trans (old.trans (and_congr_left' (iff_of_true nofun nofun)))
  · cases step

/-- Nothing has happened yet after the subscription. -/
theorem covers_subscribe (before : Covers d scope s) (step : s.subscribe = some t) : Covers d scope t := by
  unfold LogStream.subscribe at step
  split at step
  next subscribing =>
    cases step
    have away : s.phase ≠ .watching := by rw [subscribing]; exact nofun
    have quiet := before.quiet away
    exact {
      inScope := before.inScope
      seeded := fun away => absurd rfl away
      settles := fun _ id container inside => by
        change settled id (s.Followed id) s.events = _
        rw [quiet]
        -- without events, the followers themselves must be right
        have seeded := before.seeded away id container inside
        rw [LogStream.unseeded, subscribing] at seeded
        refine decide_eq_decide.mpr ((or_iff_left List.not_mem_nil).symm.trans (seeded.trans ?_))
        exact and_iff_right nofun
      quiet := fun away => absurd rfl away
      running := before.running
      summaries := nofun
      containers := before.containers
      services := before.services
      serviceEvents := before.serviceEvents
      started := before.started
      ended := before.ended
      returned := before.returned }
  · cases step

/-! ### After the subscription -/

/-- The followers and the waiting events change together, and nothing else does. -/
theorem covers_followers {n : LogStream} (before : Covers d scope s) (watching : s.phase = .watching)
    (phase : n.phase = s.phase) (running : n.running = s.running) (services : n.services = s.services)
    (events : ∀ m ∈ n.events, m ∈ s.events) (returning : ∀ f ∈ n.returning, f ∈ s.returning)
    (later : s.agg.Later n.agg)
    (inScope : ∀ id, n.Followed id → d.isService id = false →
      s.Followed id ∨ scope.includeContainer (d.labels id))
    (settles : ∀ id, d.isService id = false → scope.includeContainer (d.labels id) = true →
      settled id (n.Followed id) n.events = settled id (s.Followed id) s.events)
    (returned : ∀ f, d.isService f.id = false → n.agg.cancelled f = false →
      (∃ m ∈ s.events, m.about f.id ∧ m.action.ends) → ∃ m ∈ n.events, m.about f.id ∧ m.action.ends) :
    Covers d scope n where
  inScope id held container := (inScope id held container).elim
    (fun old => before.inScope id old container) fun inside => inside
  seeded away := absurd (phase.trans watching) away
  settles _ id container inside := by
    rw [settles id container inside, running]
    exact before.settles watching id container inside
  quiet away := absurd (phase.trans watching) away
  running := by rw [running]; exact before.running
  summaries rest seeding := by rw [phase, watching] at seeding; cases seeding
  containers m member := before.containers m (events m member)
  services := by rw [services]; exact before.services
  serviceEvents m member := before.serviceEvents m (events m member)
  started := started_later before later
  ended f member := (before.ended f (returning f member)).trans_le later.next
  returned f member container own := by
    have old := returning f member
    refine returned f container own (before.returned f old container ?_)
    exact later.not_cancelled (before.ended f old) own

theorem watching_of_event {m : Message} {rest : List Message} (before : Covers d scope s)
    (events : s.events = m :: rest) : s.phase = .watching := by
  -- events are sent only after the subscription
  by_contra away
  rw [before.quiet away] at events
  cases events

/-- An event in scope does to its container's follower what it says, but for a `kill`. -/
theorem mem_handleContainer {a : LogAggregator} {m : Message}
    (inside : scope.includeContainer m.attributes = true) (alive : m.action ≠ .kill)
    (container : m.type = .container) :
    decide (m.actor ∈ (LogStream.handleContainer scope a m).followers) =
      lastState m.actor (m.actor ∈ a.followers) m := by
  have about : m.about m.actor = true := decide_eq_true ⟨container, rfl⟩
  unfold LogStream.handleContainer lastState
  rw [if_pos about]
  -- one case for each action; `kill` is excluded
  cases action : m.action <;> simp_all [Action.ends]

theorem mem_handleContainer_other {a : LogAggregator} {m : Message} {id : String} (other : id ≠ m.actor) :
    id ∈ (LogStream.handleContainer scope a m).followers ↔ id ∈ a.followers := by
  unfold LogStream.handleContainer
  split
  · split
    · rw [LogAggregator.mem_addSource]
      simp [other]
    · rfl
  all_goals first | rfl | simp [other]

/-- Only a container in scope gets a follower. -/
theorem scope_of_mem_handleContainer {a : LogAggregator} {m : Message} {id : String}
    (held : id ∈ (LogStream.handleContainer scope a m).followers) :
    id ∈ a.followers ∨ (id = m.actor ∧ scope.includeContainer m.attributes = true) := by
  unfold LogStream.handleContainer at held
  split at held
  · split at held
    next inside =>
      rcases (LogAggregator.mem_addSource ..).mp held with new | old
      · exact .inr ⟨new, inside⟩
      · exact .inl old
    · exact .inl held
  all_goals first | exact .inl held | exact .inl ((LogAggregator.mem_remove ..).mp held).2

/-- What a container's event leaves of the followers was there, or is new. -/
theorem later_handleContainer {a : LogAggregator} {m : Message} :
    a.Later (LogStream.handleContainer scope a m) := by
  unfold LogStream.handleContainer
  split
  · split
    · exact LogAggregator.later_addSource _ _
    · exact .refl
  all_goals first | exact LogAggregator.later_remove _ | exact .refl

/-- A container's end takes its entry out. -/
theorem notMem_of_ends {a : LogAggregator} {m : Message} (ends : m.action.ends = true) :
    m.actor ∉ (LogStream.handleContainer scope a m).followers := by
  unfold LogStream.handleContainer
  cases action : m.action <;> simp_all [Action.ends]

theorem covers_handleService {m : Message} {rest : List Message} {listed : Bool}
    (before : Covers d scope s) (watching : s.phase = .watching) (events : s.events = m :: rest)
    (service : m.type = .service) (actor : d.isService m.actor = true) :
    Covers d scope (({ s with events := rest } : LogStream).handleService scope m listed) := by
  -- a service event changes the followers of services only
  have followed (id : String) (container : d.isService id = false) :
      (({ s with events := rest } : LogStream).handleService scope m listed).Followed id ↔
        s.Followed id := by
    unfold LogStream.handleService
    split
    · exact followed_addServices before.services container
    · refine (LogAggregator.mem_remove ..).trans ⟨fun both => both.2, fun held => ⟨?_, held⟩⟩
      rintro rfl
      rw [container] at actor
      cases actor
    · rfl
  have frame : ∃ agg, s.agg.Later agg ∧
      ({ s with events := rest } : LogStream).handleService scope m listed = { s with events := rest, agg } := by
    unfold LogStream.handleService
    split
    · obtain ⟨same, later⟩ := addServices_frame { s with events := rest } scope listed
      exact ⟨_, later, same⟩
    · exact ⟨_, LogAggregator.later_remove m.actor, rfl⟩
    · exact ⟨_, .refl, rfl⟩
  obtain ⟨agg, later, made⟩ := frame
  rw [made] at followed ⊢
  -- and settles no container
  have about (id : String) : m.about id = false := decide_eq_false fun own => by rw [service] at own; cases own.1
  refine covers_followers before watching rfl rfl rfl ?_ (fun f => id) later ?_ ?_ ?_
  · intro e member
    rw [events]
    exact List.mem_cons_of_mem m member
  · intro id held container
    exact .inl ((followed id container).mp held)
  · intro id container _
    have passed : settled id (s.Followed id) (m :: rest) = settled id (s.Followed id) rest := by
      rw [settled, List.foldl_cons, lastState, about]
      rfl
    rw [events, passed, decide_eq_decide.mpr (followed id container)]
  · rintro f - - ⟨e, sent, own⟩
    rw [events] at sent
    rcases List.mem_cons.mp sent with rfl | behind
    · exact absurd own.1 (by rw [about]; exact Bool.false_ne_true)
    · exact ⟨e, behind, own⟩

theorem covers_handle {listed : Bool} (before : Covers d scope s)
    (timely : Timely d scope s (.handle listed)) (step : s.handle scope listed = some t) :
    Covers d scope t := by
  unfold LogStream.handle at step
  split at step
  · cases step
  next m rest events =>
    have watching := watching_of_event before events
    have later (e : Message) (member : e ∈ rest) : e ∈ s.events := by
      rw [events]
      exact List.mem_cons_of_mem m member
    have here : m ∈ s.events := by
      rw [events]
      exact List.mem_cons_self
    -- the event is applied to the follower it had before
    have first (id : String) (followed : Bool) :
        settled id followed (m :: rest) = settled id (lastState id followed m) rest := rfl
    split at step
    next service =>
      cases step
      have actor := before.serviceEvents m here service
      exact covers_handleService before watching events service actor
    next container =>
      cases step
      obtain ⟨plain, attributes⟩ := before.containers m here container
      refine covers_followers before watching rfl rfl rfl later (fun f => id) later_handleContainer ?_ ?_ ?_
      · intro id held _
        -- the event carries the labels of its container
        rcases scope_of_mem_handleContainer held with old | ⟨rfl, inside⟩
        · exact .inl old
        · rw [attributes, includeContainer_attributes] at inside
          exact .inr inside
      · intro id _ inside
        let handled := LogStream.handleContainer scope s.agg m
        change settled id (id ∈ handled.followers) rest = settled id (id ∈ s.agg.followers) s.events
        rw [events, first]
        by_cases own : id = m.actor
        · subst own
          rw [← includeContainer_attributes, ← attributes] at inside
          -- after a `kill`, only a later end makes the follower right again
          by_cases kill : m.action = .kill
          · exact settled_of_end (timely m rest events container kill inside) _
          · rw [mem_handleContainer inside kill container]
        -- another container keeps its follower
        · have about : m.about id = false := decide_eq_false fun both => own both.2.symm
          rw [lastState, about, decide_eq_decide.mpr (mem_handleContainer_other own)]
          rfl
      · rintro f _ own ⟨e, sent, about, ends⟩
        rw [events] at sent
        rcases List.mem_cons.mp sent with rfl | behind
        -- the end itself takes the entry out
        · have actor : e.actor = f.id := (of_decide_eq_true about).2
          have held := LogAggregator.mem_of_not_cancelled _ own
          rw [← actor] at held
          exact absurd held (notMem_of_ends ends)
        · exact ⟨e, behind, about, ends⟩

/-! ### The end of a goroutine -/

/-- A container whose stream ended with its follower's entry in place has its end still to be handled. -/
theorem end_waits (before : Covers d scope s) {id : String} (container : d.isService id = false)
    (held : s.Followed id) (stopped : id ∉ s.running) : ∃ m ∈ s.events, m.about id ∧ m.action.ends := by
  have inside := before.inScope id held container
  by_cases watching : s.phase = .watching
  · have settles := before.settles watching id container inside
    rw [decide_eq_true held, decide_eq_false stopped] at settles
    by_contra endless
    rw [settled_true fun m sent about => ?_] at settles
    · cases settles
    · rw [← Bool.not_eq_true]
      exact fun ends => endless ⟨m, sent, about, ends⟩
  -- before the subscription, what is followed runs
  · exact absurd ((before.seeded watching id container inside).mp (.inl held)).2 stopped

theorem covers_streamEnds {f : Follower} (before : Covers d scope s)
    (step : s.streamEnds d f = some t) : Covers d scope t := by
  unfold LogStream.streamEnds at step
  obtain ⟨finished, made⟩ := Option.ite_none_right_eq_some.mp step
  cases made
  refine { before with ended := ?_, returned := ?_ }
  · intro g member
    rcases List.mem_append.mp member with old | new
    · exact before.ended g old
    · rw [List.mem_singleton.mp new]
      exact before.started f finished.1
  · intro g member container own
    rcases List.mem_append.mp member with old | new
    · exact before.returned g old container own
    · rw [List.mem_singleton] at new
      subst new
      have stopped := finished.2.2.resolve_left (by rw [own]; exact Bool.false_ne_true)
      rw [container, if_neg Bool.false_ne_true] at stopped
      exact end_waits before container (LogAggregator.mem_of_not_cancelled _ own) stopped

theorem covers_forget {f : Follower} (before : Covers d scope s) (step : s.forget f = some t) :
    Covers d scope t := by
  unfold LogStream.forget at step
  obtain ⟨returning, made⟩ := Option.ite_none_right_eq_some.mp step
  cases made
  -- the entry of a container goes only with its end still to be handled
  have kept (id : String) (container : d.isService id = false) :
      (∃ m ∈ s.events, m.about id ∧ m.action.ends) ∨ (id ∈ (s.agg.forget f).followers ↔ s.Followed id) := by
    by_cases own : id = f.id ∧ s.agg.cancelled f = false
    · obtain ⟨rfl, own⟩ := own
      exact .inl (before.returned f returning container own)
    · exact .inr ((LogAggregator.mem_forget ..).trans (and_iff_left own))
  have left (g : Follower) (member : g ∈ s.returning.erase f) : g ∈ s.returning := List.mem_of_mem_erase member
  have inScope (id : String) (held : id ∈ (s.agg.forget f).followers) (_ : d.isService id = false) :
      s.Followed id ∨ scope.includeContainer (d.labels id) := .inl ((LogAggregator.mem_forget ..).mp held).1
  by_cases watching : s.phase = .watching
  · refine covers_followers before watching rfl rfl rfl (fun m sent => sent) left (LogAggregator.later_forget f)
      inScope (fun id container inside => ?_) fun g _ _ sent => sent
    change settled id (id ∈ (s.agg.forget f).followers) s.events = settled id (s.Followed id) s.events
    rcases kept id container with waits | same
    · exact settled_of_end waits _
    · rw [decide_eq_decide.mpr same]
  · refine covers_preparing before watching watching rfl rfl rfl left (LogAggregator.later_forget f)
      before.summaries inScope fun id container inside => ?_
    rcases kept id container with ⟨m, sent, -⟩ | same
    · rw [before.quiet watching] at sent
      cases sent
    · exact (or_congr_left same).trans (before.seeded watching id container inside)

theorem covers_step {i : LogStream.Step} (before : Covers d scope s) (timely : Timely d scope s i)
    (step : s.step d scope i = some t) : Covers d scope t := by
  cases i with
  | change c => exact covers_change before timely step
  | list listed => exact covers_list before timely step
  | seed => exact covers_seed before step
  | seedServices listed => exact covers_seedServices before step
  | subscribe => exact covers_subscribe before step
  | handle listed => exact covers_handle before timely step
  | streamEnds f => exact covers_streamEnds before step
  | forget f => exact covers_forget before step

end Steps

/-- Docker with some containers running and some services, and a handler that has not begun. -/
def newLogStream (running : List String) (services : List Swarm.Service) : LogStream := { running, services }

theorem covers_new {d : Docker} {running : List String} {services : List Swarm.Service} (scope : LogScope)
    (containers : ∀ id ∈ running, d.isService id = false) (swarm : ∀ svc ∈ services, d.isService svc.id) :
    Covers d scope (newLogStream running services) where
  inScope _ held := absurd held (AList.notMem_empty _)
  seeded _ id _ _ := iff_of_false
    (fun held => held.elim (AList.notMem_empty id) List.not_mem_nil) fun listed => listed.1 rfl
  settles := nofun
  quiet _ := rfl
  running := containers
  summaries := nofun
  containers := nofun
  services := swarm
  serviceEvents := nofun
  started := nofun
  ended := nofun
  returned := nofun

/-- Once the events of a container are handled, it is followed if and only if it runs and is in
scope, and the goroutine of its entry has not returned. -/
theorem followed_iff_running (d : Docker) (scope : LogScope) (running : List String)
    (services : List Swarm.Service) (containers : ∀ id ∈ running, d.isService id = false)
    (swarm : ∀ svc ∈ services, d.isService svc.id) (steps : List LogStream.Step)
    (timely : Along (LogStream.step d scope) (Timely d scope) (newLogStream running services) steps)
    (s : LogStream) (run : exec (LogStream.step d scope) (newLogStream running services) steps = some s)
    (watching : s.phase = .watching) (id : String) (container : d.isService id = false)
    (handled : ∀ m ∈ s.events, m.actor ≠ id) :
    (s.Followed id ↔ id ∈ s.running ∧ scope.includeContainer (d.labels id)) ∧
      ∀ f ∈ s.returning, f.id = id → s.agg.cancelled f = true := by
  have covers := exec_invariant (fun _ _ _ => covers_step) (covers_new scope containers swarm) timely run
  have silent : ∀ m ∈ s.events, m.about id = false := fun m member =>
    decide_eq_false fun both => handled m member both.2
  -- without events of the container, the follower is what they settled
  have now (inside : scope.includeContainer (d.labels id) = true) : s.Followed id ↔ id ∈ s.running := by
    have settles := covers.settles watching id container inside
    rw [settled_other silent] at settles
    exact decide_eq_decide.mp settles
  refine ⟨⟨fun held => ?_, fun both => (now both.2).mpr both.1⟩, fun f member own => ?_⟩
  · have inside := covers.inScope id held container
    exact ⟨(now inside).mp held, inside⟩
  · rw [← Bool.not_eq_false]
    intro entry
    obtain ⟨m, sent, about, -⟩ := covers.returned f member (own ▸ container) entry
    rw [own, silent m sent] at about
    cases about

/-- Containers without labels, and no services. -/
def plainDocker : Docker where
  name _ := "web"
  labels _ := none
  isService _ := false

/-- A container that runs when it is listed. -/
def listedRun : List LogStream.Step := [.list true, .seed, .seedServices true, .subscribe]

/-- It restarts, and its first goroutine's `forget` comes late. -/
def restartRun : List LogStream.Step :=
  [.change (.exit "c0" false), .streamEnds ⟨"c0", "web", 0⟩, .change (.start "c0"), .handle true, .handle true,
    .forget ⟨"c0", "web", 0⟩]

/-- The handler watches the container, whose latest follower has this token. -/
def watching (running : List String) (events : List Action) (goroutines : List Nat) (followed : Option Nat)
    (returning : List Nat) : LogStream where
  running
  phase := .watching
  events := events.map (plainDocker.containerMessage "c0")
  agg :=
    { followers := followed.elim ∅ fun token => AList.insert "c0" token ∅
      goroutines := goroutines.map fun token => ⟨"c0", "web", token⟩
      nextToken := goroutines.foldl (fun next token => max next (token + 1)) 1 }
  returning := returning.map fun token => ⟨"c0", "web", token⟩

theorem exec_listed : exec (LogStream.step plainDocker {}) (newLogStream ["c0"] []) listedRun =
    some (watching ["c0"] [] [0] (some 0) []) := rfl

theorem timely_listed : Along (LogStream.step plainDocker {}) (Timely plainDocker {}) (newLogStream ["c0"] [])
    listedRun :=
  along_cons nofun rfl (along_cons trivial rfl (along_cons trivial rfl (along_cons trivial rfl trivial)))

/-- No signal is sent. -/
theorem exec_restart : exec (LogStream.step plainDocker {}) (watching ["c0"] [] [0] (some 0) []) restartRun =
      some (watching ["c0"] [] [1] (some 1) []) ∧
    Along (LogStream.step plainDocker {}) (Timely plainDocker {}) (watching ["c0"] [] [0] (some 0) []) restartRun := by
  have calm {action : Action} {running events goroutines followed returning} (alive : action ≠ .kill) :
      Timely plainDocker {} (watching running (action :: events) goroutines followed returning) (.handle true) := by
    intro k tail same _ kill
    rw [watching, List.map_cons, List.cons.injEq] at same
    exact absurd ((congrArg Message.action same.1).trans kill) alive
  refine exec_along_cons (t := watching [] [.die] [0] (some 0) []) (fun preparing => absurd rfl preparing.2) rfl ?_
  have ends : (watching [] [.die] [0] (some 0) []).streamEnds plainDocker ⟨"c0", "web", 0⟩ =
      some (watching [] [.die] [0] (some 0) [0]) :=
    if_pos ⟨List.mem_singleton_self _, List.not_mem_nil, .inr List.not_mem_nil⟩
  refine exec_along_cons (t := watching [] [.die] [0] (some 0) [0]) trivial ends ?_
  refine exec_along_cons (t := watching ["c0"] [.die, .start] [0] (some 0) [0])
    (fun preparing => absurd rfl preparing.2) rfl ?_
  refine exec_along_cons (t := watching ["c0"] [.start] [0] none [0]) (calm nofun) rfl ?_
  refine exec_along_cons (t := watching ["c0"] [] [0, 1] (some 1) [0]) (calm nofun) rfl ?_
  exact exec_along_cons (t := watching ["c0"] [] [1] (some 1) []) trivial rfl ⟨rfl, trivial⟩

theorem noServices : ∀ svc ∈ ([] : List Swarm.Service), plainDocker.isService svc.id :=
  fun _ none => absurd none List.not_mem_nil

/-- The container that restarted is followed. -/
theorem followed_restarted :
    ∃ s, exec (LogStream.step plainDocker {}) (newLogStream ["c0"] []) (listedRun ++ restartRun) = some s ∧
      (s.Followed "c0" ↔ "c0" ∈ s.running ∧ LogScope.includeContainer {} (plainDocker.labels "c0") = true) ∧
      ∀ f ∈ s.returning, f.id = "c0" → s.agg.cancelled f = true :=
  have run : exec (LogStream.step plainDocker {}) (newLogStream ["c0"] []) (listedRun ++ restartRun) =
      some (watching ["c0"] [] [1] (some 1) []) := exec_append.mpr ⟨_, exec_listed, exec_restart.1⟩
  ⟨_, run, followed_iff_running plainDocker {} ["c0"] [] (fun _ _ => rfl) noServices (listedRun ++ restartRun)
    (along_append timely_listed exec_listed exec_restart.2) _ run rfl "c0" rfl nofun⟩

theorem signalled : exec (LogStream.step plainDocker {}) (watching ["c0"] [] [0] (some 0) [])
    [.change (.signal "c0"), .handle true] = some (watching ["c0"] [] [0] none []) :=
  exec_cons.mpr ⟨watching ["c0"] [.kill] [0] (some 0) [], rfl, exec_cons.mpr ⟨_, rfl, rfl⟩⟩

/-- A container that survives a signal is no longer followed. -/
theorem survivor_unfollowed :
    ¬∀ (d : Docker) (scope : LogScope) (running : List String) (services : List Swarm.Service),
      (∀ id ∈ running, d.isService id = false) → (∀ svc ∈ services, d.isService svc.id = true) →
      ∀ (steps : List LogStream.Step) (s : LogStream),
        exec (LogStream.step d scope) (newLogStream running services) steps = some s →
        s.phase = .watching → ∀ id, d.isService id = false → (∀ m ∈ s.events, m.actor ≠ id) →
          (s.Followed id ↔ id ∈ s.running ∧ scope.includeContainer (d.labels id) = true) := by
  intro all
  -- the container runs and is in scope, but the signal ended its follower
  have run : exec (LogStream.step plainDocker {}) (newLogStream ["c0"] [])
      (listedRun ++ [.change (.signal "c0"), .handle true]) = some (watching ["c0"] [] [0] none []) :=
    exec_append.mpr ⟨_, exec_listed, signalled⟩
  have covered := all plainDocker {} ["c0"] [] (fun _ _ => rfl) noServices
    (listedRun ++ [.change (.signal "c0"), .handle true]) _ run rfl "c0" rfl nofun
  exact AList.notMem_empty "c0" (covered.mpr ⟨List.mem_singleton_self _, by decide⟩)

end Dockgraph.Api
