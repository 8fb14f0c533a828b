import Dockgraph.Api.Hub
import Dockgraph.Library.Transition

/-!
# Registration and broadcasts

What a client was sent, together with what its own registration and the broadcast in progress
still have to send, always leads to the hub's current graph. Once both have finished nothing is
outstanding. This needs the snapshot of the registration to be sent before a broadcast is: the
lock orders their critical sections, not their sends.
-/
namespace Dockgraph.Api

open Collector Replica Transition

/-! ## Messages of a broadcast -/

/-- The message takes replicas of the current graph to `new`; the first one is a snapshot. -/
def Succeeds (current : Option GraphSnapshot) (gm : GraphMsg) (new : GraphSnapshot) : Prop :=
  match current with
  | none => gm = .reset new
  | some g => Advances GraphSnapshot.patch g gm new

/-- The message carries its graph and the step to it from the current one. -/
structure Continues (current : Option GraphSnapshot) (msg : StateMessage) (new : GraphSnapshot) :
    Prop where
  snapshot : msg.snapshot = some new
  graph : ∃ gm, msg.graphMsg = some gm ∧ Succeeds current gm new

theorem graphMsg_wireMessage (msg : StateMessage) :
    (wireMessage msg).bind WireMessage.graphMsg = msg.graphMsg := by
  have distinct : msgTypeDelta ≠ msgTypeSnapshot := by decide
  unfold wireMessage StateMessage.graphMsg
  by_cases full : msg.type = msgTypeSnapshot
  · cases msg.snapshot <;> simp [full, distinct.symm, newSnapshotMessage, WireMessage.graphMsg]
  · by_cases change : msg.type = msgTypeDelta
    · cases msg.delta <;> simp [change, distinct, newDeltaMessage, WireMessage.graphMsg]
    · simp [full, change]

/-! ## The invariant of one client -/

/-- What the client's registration has yet to send. -/
def Client.ownSnapshot (c : Client) : List GraphMsg :=
  if c.phase = .registered then c.snapshot.toList.map .reset else []

/-- What the broadcast in progress has yet to send to the client. -/
def Client.dueMsgs (c : Client) : List GraphMsg := c.due.toList.filterMap WireMessage.graphMsg

/-- The client's messages, those on their way included. -/
def Client.expected (c : Client) : List GraphMsg := c.graphMsgs ++ c.ownSnapshot ++ c.dueMsgs

/-- The messages are a full value and then changes, and lead to the current graph. -/
def Tracks (current : Option GraphSnapshot) (msgs : List GraphMsg) : Prop :=
  match current with
  | none => msgs = []
  | some g => msgs ≠ [] ∧ StartsFull msgs ∧ Leads GraphSnapshot.patch {} msgs g

structure InStep (current : Option GraphSnapshot) (c : Client) : Prop where
  tracks : Tracks current c.expected
  started : c.phase ≠ .registered → c.snapshot ≠ none → c.graphMsgs ≠ []

theorem Tracks.concat {current : Option GraphSnapshot} {msgs : List GraphMsg} {gm : GraphMsg}
    {new : GraphSnapshot} (tracks : Tracks current msgs) (next : Succeeds current gm new) :
    Tracks (some new) (msgs ++ [gm]) := by
  cases current with
  | none =>
    obtain rfl := next
    obtain rfl : msgs = [] := tracks
    exact ⟨by simp, trivial, leads_reset new⟩
  | some g =>
    obtain ⟨some, full, leads⟩ := tracks
    exact ⟨by simp, (startsFull_append some).mpr full, leads.concat GraphSnapshot.patch_congr next⟩

/-! ## Steps of a client -/

theorem graphMsgs_trySend {c : Client} (room : c.HasRoom) (wire : WireMessage) :
    (c.trySend wire).graphMsgs = c.graphMsgs ++ (wire.graphMsg).toList := by
  cases graph : wire.graphMsg <;> simp [Client.trySend, room, Client.graphMsgs, graph]

theorem trySend_frame (c : Client) (wire : WireMessage) :
    (c.trySend wire).id = c.id ∧ (c.trySend wire).phase = c.phase ∧
      (c.trySend wire).snapshot = c.snapshot ∧ (c.trySend wire).due = c.due ∧
      (c.trySend wire).dueStats = c.dueStats := by
  unfold Client.trySend
  split <;> exact ⟨rfl, rfl, rfl, rfl, rfl⟩

section Steps

variable {current : Option GraphSnapshot} {c d : Client}

theorem inStep_enqueueSnapshot (before : InStep current c) (step : c.enqueueSnapshot = some d) :
    InStep current d := by
  obtain ⟨id, phase, own, sendCh, due, dueStats, received⟩ := c
  unfold Client.enqueueSnapshot at step
  split at step
  next registered =>
    obtain rfl : phase = .registered := registered
    cases own with
    | none =>
      cases step
      have tracks := before.tracks
      simp only [Client.expected, Client.ownSnapshot, if_true, Option.toList_none, List.map_nil]
        at tracks
      exact ⟨tracks, fun _ known => absurd rfl known⟩
    | some snapshot =>
      dsimp only at step
      split at step
      · cases step
        -- The snapshot moves from what is outstanding to the end of the queue.
        have sent : Client.graphMsgs ⟨id, .enqueued, some snapshot,
            sendCh ++ [newSnapshotMessage snapshot], due, dueStats, received⟩ =
            Client.graphMsgs ⟨id, .registered, some snapshot, sendCh, due, dueStats, received⟩ ++
              [.reset snapshot] := by
          simp [Client.graphMsgs, newSnapshotMessage, WireMessage.graphMsg]
        refine ⟨?_, fun _ _ => by rw [sent]; simp⟩
        have tracks := before.tracks
        rw [Client.expected] at tracks ⊢
        rw [sent]
        simpa [Client.ownSnapshot, Client.dueMsgs] using tracks
      · cases step
  · cases step

theorem inStep_startPumps (before : InStep current c) (step : c.startPumps = some d) :
    InStep current d := by
  unfold Client.startPumps at step
  split at step
  next enqueued =>
    cases step
    have same : c.expected = Client.expected { c with phase := .running } := by
      simp [Client.expected, Client.ownSnapshot, enqueued, Client.graphMsgs, Client.dueMsgs]
    refine ⟨same ▸ before.tracks, fun _ known => before.started ?_ known⟩
    simp [enqueued]
  · cases step

theorem inStep_deliver (before : InStep current c) (step : c.deliver = some d)
    (orderly : c.HasRoom ∧ (c.phase = .registered → c.snapshot = none)) :
    InStep current d := by
  obtain ⟨wire, due, rfl⟩ := Option.map_eq_some_iff.mp step
  obtain ⟨_, phase, snapshot, done, _⟩ := trySend_frame { c with due := none } wire
  have sent : (Client.trySend { c with due := none } wire).graphMsgs =
      c.graphMsgs ++ wire.graphMsg.toList := graphMsgs_trySend (c := { c with due := none })
    orderly.1 wire
  -- Nothing of the registration is outstanding, so the order of what is sent stays.
  have own : c.ownSnapshot = [] := by
    unfold Client.ownSnapshot
    split
    next registered => simp [orderly.2 registered]
    · rfl
  have same : c.expected = (Client.trySend { c with due := none } wire).expected := by
    have ownAfter : (Client.trySend { c with due := none } wire).ownSnapshot = c.ownSnapshot := by
      simp [Client.ownSnapshot, phase, snapshot]
    rw [Client.expected, Client.expected, ownAfter, own, sent, Client.dueMsgs, Client.dueMsgs, due,
      done]
    cases graph : wire.graphMsg <;> simp [graph]
  refine ⟨same ▸ before.tracks, fun running known => ?_⟩
  rw [phase] at running
  rw [snapshot] at known
  simp [sent, before.started running known]

theorem inStep_deliverStats (before : InStep current c) (step : c.deliverStats = some d)
    (stats : ∀ wire, c.dueStats = some wire → wire.graphMsg = none) :
    InStep current d := by
  obtain ⟨wire, due, rfl⟩ := Option.map_eq_some_iff.mp step
  obtain ⟨_, phase, snapshot, dueKept, _⟩ := trySend_frame { c with dueStats := none } wire
  have sent : (Client.trySend { c with dueStats := none } wire).graphMsgs = c.graphMsgs := by
    have noGraph := stats wire due
    unfold Client.trySend
    split
    · simp [Client.graphMsgs, noGraph]
    · rfl
  have same : c.expected = (Client.trySend { c with dueStats := none } wire).expected := by
    simp [Client.expected, Client.ownSnapshot, phase, snapshot, sent, Client.dueMsgs, dueKept]
  refine ⟨same ▸ before.tracks, fun running known => ?_⟩
  rw [phase] at running
  rw [snapshot] at known
  rw [sent]
  exact before.started running known

theorem inStep_write (before : InStep current c) (step : c.write = some d) :
    InStep current d := by
  unfold Client.write at step
  split at step
  next running =>
    cases queue : c.sendCh with
    | nil => simp [queue] at step
    | cons wire rest =>
      simp only [queue] at step
      cases step
      have sent : Client.graphMsgs { c with sendCh := rest, received := c.received ++ [wire] } =
          c.graphMsgs := by
        simp [Client.graphMsgs, queue]
      have same : c.expected =
          Client.expected { c with sendCh := rest, received := c.received ++ [wire] } := by
        simp [Client.expected, Client.ownSnapshot, sent, Client.dueMsgs]
      exact ⟨same ▸ before.tracks, fun idle known => by
        rw [sent]; exact before.started idle known⟩
  · cases step

/-- A step keeps the client's ID and makes no stats message due. -/
theorem client_step_frame {s : ClientStep} (step : c.step s = some d) :
    d.id = c.id ∧ (d.dueStats = c.dueStats ∨ d.dueStats = none) := by
  cases s with
  | enqueueSnapshot =>
    simp only [Client.step, Client.enqueueSnapshot] at step
    split at step
    · split at step
      · cases step
        exact ⟨rfl, .inl rfl⟩
      · split at step
        · cases step
          exact ⟨rfl, .inl rfl⟩
        · cases step
    · cases step
  | startPumps =>
    simp only [Client.step, Client.startPumps] at step
    split at step
    · cases step
      exact ⟨rfl, .inl rfl⟩
    · cases step
  | deliver =>
    obtain ⟨wire, _, rfl⟩ := Option.map_eq_some_iff.mp step
    obtain ⟨id, _, _, _, dueStats⟩ := trySend_frame { c with due := none } wire
    exact ⟨id, .inl dueStats⟩
  | deliverStats =>
    obtain ⟨wire, _, rfl⟩ := Option.map_eq_some_iff.mp step
    obtain ⟨id, _, _, _, dueStats⟩ := trySend_frame { c with dueStats := none } wire
    exact ⟨id, .inr dueStats⟩
  | write =>
    simp only [Client.step, Client.write] at step
    split at step
    · split at step
      · cases step
      · cases step
        exact ⟨rfl, .inl rfl⟩
    · cases step

/-- The broadcast sends to the client only with room in its queue and nothing of its registration
outstanding. -/
def OrderlyClient (c : Client) : ClientStep → Prop
  | .deliver => c.HasRoom ∧ (c.phase = .registered → c.snapshot = none)
  | .enqueueSnapshot | .startPumps | .deliverStats | .write => True

theorem inStep_step {s : ClientStep} (before : InStep current c) (orderly : OrderlyClient c s)
    (stats : ∀ wire, c.dueStats = some wire → wire.graphMsg = none) (step : c.step s = some d) :
    InStep current d := by
  cases s with
  | enqueueSnapshot => exact inStep_enqueueSnapshot before step
  | startPumps => exact inStep_startPumps before step
  | deliver => exact inStep_deliver before step orderly
  | deliverStats => exact inStep_deliverStats before step stats
  | write => exact inStep_write before step

end Steps

/-! ## Steps of the hub -/

theorem clientStep_cases {h n : Hub} {id : Nat} {s : ClientStep}
    (step : h.clientStep id s = some n) :
    ∃ c d, c ∈ h.clients ∧ c.id = id ∧ c.step s = some d ∧
      n = { h with clients := h.clients.map fun x => if x.id = id then d else x } := by
  unfold Hub.clientStep at step
  cases found : h.clients.find? (fun c => c.id = id) with
  | none => simp [found] at step
  | some c =>
    simp only [found] at step
    obtain ⟨d, made, rfl⟩ := Option.map_eq_some_iff.mp step
    exact ⟨c, d, List.mem_of_find?_eq_some found, by simpa using List.find?_some found, made, rfl⟩

/-- Clients with the ID are in step with the hub; no stats message carries a graph. -/
structure HubInStep (id : Nat) (h : Hub) : Prop where
  inStep : ∀ c ∈ h.clients, c.id = id → InStep h.current c
  stats : ∀ c ∈ h.clients, ∀ wire, c.dueStats = some wire → wire.graphMsg = none

/-- What the steps need: a broadcast continues from the current graph, and the client's own steps
are orderly. -/
def Orderly (id : Nat) (h : Hub) : HubStep → Prop
  | .broadcast msg => wireMessage msg ≠ none → ∃ new, Continues h.current msg new
  | .client k s => k = id → ∀ c ∈ h.clients, c.id = id → OrderlyClient c s
  | .register | .broadcastStats _ | .disconnect _ | .shutdown => True

section HubSteps

variable {id : Nat} {h n : Hub}

theorem hubInStep_register (before : HubInStep id h) : HubInStep id h.register := by
  unfold Hub.register
  split
  · exact before
  · constructor
    · intro c member named
      rcases List.mem_append.mp member with old | new
      · exact before.inStep c old named
      · obtain rfl := List.mem_singleton.mp new
        refine ⟨?_, fun running => absurd rfl running⟩
        -- All the new client is to get is the graph it read.
        cases current : h.current with
        | none => rfl
        | some g => exact ⟨List.cons_ne_nil _ _, trivial, leads_reset g⟩
    · intro c member
      rcases List.mem_append.mp member with old | new
      · exact before.stats c old
      · obtain rfl := List.mem_singleton.mp new
        exact fun wire none => by cases none

theorem hubInStep_clientStep {k : Nat} {s : ClientStep} (before : HubInStep id h)
    (orderly : Orderly id h (.client k s)) (step : h.clientStep k s = some n) :
    HubInStep id n := by
  obtain ⟨c, d, member, hit, made, rfl⟩ := clientStep_cases step
  obtain ⟨sameID, stats⟩ := client_step_frame made
  constructor
  · intro x listed named
    obtain ⟨y, old, rfl⟩ := List.mem_map.mp listed
    split at named
    next here =>
      have target : k = id := by rw [← named, sameID, hit]
      have namedC : c.id = id := hit.trans target
      rw [if_pos here]
      exact inStep_step (before.inStep c member namedC) (orderly target c member namedC)
        (before.stats c member) made
    next elsewhere =>
      rw [if_neg elsewhere]
      exact before.inStep y old named
  · intro x listed
    obtain ⟨y, old, rfl⟩ := List.mem_map.mp listed
    split
    · intro wire due
      rcases stats with kept | gone
      · exact before.stats c member wire (kept ▸ due)
      · rw [gone] at due
        cases due
    · exact before.stats y old

theorem hubInStep_broadcast {msg : StateMessage} (before : HubInStep id h)
    (continues : wireMessage msg ≠ none → ∃ new, Continues h.current msg new)
    (step : h.broadcast msg = some n) : HubInStep id n := by
  unfold Hub.broadcast at step
  split at step
  next idle =>
    cases wired : wireMessage msg with
    | none =>
      simp only [wired] at step
      cases step
      exact before
    | some wire =>
      simp only [wired] at step
      cases step
      obtain ⟨new, given, gm, graph, next⟩ := continues (by simp [wired])
      have sent : wire.graphMsg = some gm := by
        rw [← graph, ← graphMsg_wireMessage, wired]
        rfl
      constructor
      · intro x listed named
        obtain ⟨c, member, rfl⟩ := List.mem_map.mp listed
        have noDue : c.due = none := by simpa using List.all_eq_true.mp idle c member
        have old := before.inStep c member named
        have longer : Client.expected { c with due := some wire } = c.expected ++ [gm] := by
          simp [Client.expected, Client.dueMsgs, noDue, sent, Client.ownSnapshot, Client.graphMsgs]
        refine ⟨?_, old.started⟩
        rw [longer, given, Option.some_or]
        exact old.tracks.concat next
      · intro x listed
        obtain ⟨c, member, rfl⟩ := List.mem_map.mp listed
        exact before.stats c member
  · cases step

theorem hubInStep_broadcastStats {snap : StatsSnapshot} (before : HubInStep id h)
    (step : h.broadcastStats snap = some n) : HubInStep id n := by
  unfold Hub.broadcastStats at step
  split at step
  · cases step
    constructor
    · intro x listed named
      obtain ⟨c, member, rfl⟩ := List.mem_map.mp listed
      have old := before.inStep c member named
      exact ⟨old.tracks, old.started⟩
    · intro x listed wire due
      obtain ⟨c, member, rfl⟩ := List.mem_map.mp listed
      cases due
      rfl
  · cases step

theorem hubInStep_disconnect {k : Nat} (before : HubInStep id h)
    (step : h.disconnect k = some n) : HubInStep id n := by
  unfold Hub.disconnect at step
  split at step
  · cases step
    exact ⟨fun c member => before.inStep c (List.mem_filter.mp member).1,
      fun c member => before.stats c (List.mem_filter.mp member).1⟩
  · cases step

theorem hubInStep_step (h : Hub) (s : HubStep) (n : Hub) (before : HubInStep id h)
    (orderly : Orderly id h s) (step : h.step s = some n) : HubInStep id n := by
  cases s with
  | register =>
    cases step
    exact hubInStep_register before
  | client k s => exact hubInStep_clientStep before orderly step
  | broadcast msg => exact hubInStep_broadcast before orderly step
  | broadcastStats snap => exact hubInStep_broadcastStats before step
  | disconnect k => exact hubInStep_disconnect before step
  | shutdown =>
    cases step
    exact ⟨before.inStep, before.stats⟩

end HubSteps

/-! ## The current graph -/

theorem current_broadcast_none {h n : Hub} {msg : StateMessage} (step : h.broadcast msg = some n)
    (none : wireMessage msg = none) : n.current = h.current := by
  unfold Hub.broadcast at step
  split at step
  · simp only [none] at step
    cases step
    rfl
  · cases step

theorem current_broadcast {h n : Hub} {msg : StateMessage} {new : GraphSnapshot}
    (step : h.broadcast msg = some n) (continues : Continues h.current msg new) :
    n.current = some new := by
  obtain ⟨given, gm, graph, _⟩ := continues
  unfold Hub.broadcast at step
  split at step
  · cases wired : wireMessage msg with
    | none =>
      rw [← graphMsg_wireMessage, wired] at graph
      cases graph
    | some wire =>
      simp only [wired] at step
      cases step
      simp [given]
  · cases step

/-- Only broadcasts change the current graph. -/
theorem current_step {h n : Hub} {s : HubStep} (step : h.step s = some n)
    (other : ∀ msg, s ≠ .broadcast msg) : n.current = h.current := by
  cases s with
  | register =>
    cases step
    unfold Hub.register
    split <;> rfl
  | client k s =>
    obtain ⟨_, _, _, _, _, rfl⟩ := clientStep_cases step
    rfl
  | broadcast msg => exact absurd rfl (other msg)
  | broadcastStats snap =>
    simp only [Hub.step, Hub.broadcastStats] at step
    split at step
    · cases step
      rfl
    · cases step
  | disconnect k =>
    simp only [Hub.step, Hub.disconnect] at step
    split at step
    · cases step
      rfl
    · cases step
  | shutdown =>
    cases step
    rfl

theorem hubInStep_newHub (id : Nat) : HubInStep id newHub :=
  ⟨by simp [newHub], by simp [newHub]⟩

/-! ## Registration loses nothing -/

/-- Once its registration and the broadcast in progress are done, what the client was sent starts
with a snapshot if there was a graph when it registered, and replays to the current graph. -/
def Complete (h : Hub) (c : Client) : Prop :=
  c.phase ≠ .registered → c.due = none →
    (c.snapshot ≠ none → c.graphMsgs ≠ [] ∧ StartsFull c.graphMsgs) ∧
    ∀ g, h.current = some g → replayed c.graphMsgs ≈ g

theorem registration_loses_nothing (id : Nat) (steps : List HubStep) (h : Hub)
    (orderly : Along Hub.step (Orderly id) newHub steps)
    (run : exec Hub.step newHub steps = some h) :
    ∀ c ∈ h.clients, c.id = id → Complete h c := by
  intro c member named finished noDue
  have inStep := (exec_invariant hubInStep_step (hubInStep_newHub id) orderly run).inStep c member
    named
  have all : c.expected = c.graphMsgs := by
    simp [Client.expected, Client.ownSnapshot, finished, Client.dueMsgs, noDue]
  have tracks := inStep.tracks
  rw [all] at tracks
  refine ⟨fun known => ⟨inStep.started finished known, ?_⟩, fun g current => ?_⟩
  · cases current : h.current with
    | none =>
      rw [current] at tracks
      exact absurd tracks (inStep.started finished known)
    | some g =>
      rw [current] at tracks
      exact tracks.2.1
  · rw [current] at tracks
    exact tracks.2.2.ends

/-- One container. -/
def webGraph (status : String) : GraphSnapshot where
  nodes := [{ id := "container:web", type := "container", name := "web", status }]

def firstMessage : StateMessage :=
  { type := msgTypeSnapshot, snapshot := some (webGraph "running") }

/-- The container stops. -/
def stopMessage : StateMessage :=
  { type := msgTypeDelta, delta := some { nodesUpdated := (webGraph "exited").nodes },
    snapshot := some (webGraph "exited"), base := webGraph "running" }

theorem continues_firstMessage : Continues none firstMessage (webGraph "running") :=
  ⟨rfl, .reset (webGraph "running"), rfl, rfl⟩

theorem continues_stopMessage :
    Continues (some (webGraph "running")) stopMessage (webGraph "exited") := by
  refine ⟨rfl, .change (webGraph "running") { nodesUpdated := (webGraph "exited").nodes }, rfl,
    Setoid.refl _, ?_⟩
  change GraphSnapshot.Same _ _
  decide

/-- A client registers between two broadcasts; the snapshot is enqueued before the second one
reaches the client. -/
def lateBroadcast : List HubStep :=
  [.broadcast firstMessage, .register, .broadcast stopMessage, .client 0 .enqueueSnapshot,
    .client 0 .deliver]

theorem registration_loses_nothing_late :
    ∃ h, exec Hub.step newHub lateBroadcast = some h ∧
      ∀ c ∈ h.clients, c.id = 0 → Complete h c := by
  refine ⟨_, rfl, registration_loses_nothing 0 lateBroadcast _ ?_ rfl⟩
  refine ⟨fun _ => ⟨_, continues_firstMessage⟩, ?_⟩
  rintro _ ⟨⟩
  refine ⟨trivial, ?_⟩
  rintro _ ⟨⟩
  refine ⟨fun _ => ⟨_, continues_stopMessage⟩, ?_⟩
  rintro _ ⟨⟩
  refine ⟨fun _ _ _ _ => trivial, ?_⟩
  rintro _ ⟨⟩
  refine ⟨fun _ c member _ => ?_, fun _ _ => trivial⟩
  obtain rfl := List.mem_singleton.mp member
  exact ⟨by decide, by decide⟩

/-- The premises of the contract: broadcasts continue from the current graph and queues have
room. -/
def Fed (h : Hub) : HubStep → Prop
  | .broadcast msg => wireMessage msg ≠ none → ∃ new, Continues h.current msg new
  | .client _ _ => ∀ c ∈ h.clients, c.HasRoom
  | .register | .broadcastStats _ | .disconnect _ | .shutdown => True

/-- The broadcast reaches the client before its own snapshot does. -/
def earlyBroadcast : List HubStep :=
  [.broadcast firstMessage, .register, .broadcast stopMessage, .client 0 .deliver,
    .client 0 .enqueueSnapshot]

theorem registration_overtaken :
    ¬∀ (steps : List HubStep) (h : Hub), Along Hub.step Fed newHub steps →
      exec Hub.step newHub steps = some h → ∀ c ∈ h.clients, Complete h c := by
  intro complete
  have fed : Along Hub.step Fed newHub earlyBroadcast := by
    refine ⟨fun _ => ⟨_, continues_firstMessage⟩, ?_⟩
    rintro _ ⟨⟩
    refine ⟨trivial, ?_⟩
    rintro _ ⟨⟩
    refine ⟨fun _ => ⟨_, continues_stopMessage⟩, ?_⟩
    rintro _ ⟨⟩
    refine ⟨?_, ?_⟩
    · change ∀ c ∈ _, Client.HasRoom c
      decide
    · rintro _ ⟨⟩
      refine ⟨?_, fun _ _ => trivial⟩
      change ∀ c ∈ _, Client.HasRoom c
      decide
  -- The queue holds the delta first and the graph it was computed from last.
  exact ((complete earlyBroadcast _ fed rfl _ List.mem_cons_self (by decide) rfl).1 (by decide)).2

end Dockgraph.Api
