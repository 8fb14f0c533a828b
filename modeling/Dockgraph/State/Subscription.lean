import Dockgraph.State.DiffCompleteness
import Dockgraph.State.MergedGraph

/-!
# Subscribers follow the merged graph

What a subscriber was sent, replayed, is the merged graph: every message about an update
takes a replica of the old merged graph to the new one. The exception is a subscriber that
joins while the merged graph is empty: it is sent nothing, so its first message is a delta.
-/
namespace Dockgraph.State

open Collector Keyed Replica Transition

/-! ## Messages about updates -/

/-- The message an update causes takes replicas of the old graph to the new one; without a
message the graph is the same. -/
theorem updateMessage_advances (ord : Nat → RangeOrder) (hadState : Bool)
    {prev new : GraphSnapshot} (uniqueP : prev.UniqueIDs) (uniqueN : new.UniqueIDs)
    (visible : hadState = true → NoHiddenChange prev new) :
    match updateMessage ord hadState prev new with
    | some msg => ∃ gm, msg.graphMsg = some gm ∧ Advances GraphSnapshot.patch prev gm new ∧
        (hadState = false → gm = .reset new)
    | none => hadState = true ∧ prev ≈ new := by
  cases hadState with
  | false => exact ⟨.reset new, rfl, ⟨trivial, Setoid.refl new⟩, fun _ => rfl⟩
  | true =>
    have patched : GraphSnapshot.patch (diffSnapshots ord (some prev) (some new)).1 prev ≈ new :=
      (patch_same_iff ord uniqueP uniqueN).mpr (visible rfl)
    cases changed : (diffSnapshots ord (some prev) (some new)).2 with
    | false =>
      have quiet : updateMessage ord true prev new = none := by simp [updateMessage, changed]
      rw [quiet]
      exact ⟨rfl, same_of_unchanged ord changed patched⟩
    | true =>
      have told : updateMessage ord true prev new =
          some { type := msgTypeDelta, delta := some (diffSnapshots ord (some prev) (some new)).1,
                 snapshot := some new, base := prev } := by
        simp [updateMessage, changed]
      rw [told]
      exact ⟨_, rfl, ⟨Setoid.refl prev, patched⟩, by simp⟩

/-- Every message about an update carries the new graph. -/
theorem snapshot_updateMessage {ord : Nat → RangeOrder} {hadState : Bool}
    {prev new : GraphSnapshot} {msg : StateMessage}
    (told : updateMessage ord hadState prev new = some msg) : msg.snapshot = some new := by
  unfold updateMessage at told
  split at told
  · cases told
    rfl
  · dsimp only at told
    split at told
    · cases told
    · cases told
      rfl

theorem store_merged (m : Manager) (name : String) (runtime : Bool) (update : StateUpdate) :
    (m.store name runtime update).merged = m.merged ∧
      (m.store name runtime update).hasState = m.hasState ∧
      (m.store name runtime update).subscribers = m.subscribers := by
  unfold Manager.store
  split <;> exact ⟨rfl, rfl, rfl⟩

/-- What one update does to the subscribers. -/
theorem handleUpdate_subscribers (ord : Nat → RangeOrder) (m : Manager) (name : String)
    (runtime : Bool) (update : StateUpdate) :
    (m.handleUpdate ord name runtime update).hasState = true ∧
      (m.handleUpdate ord name runtime update).subscribers =
        match updateMessage (fun i => ord (i + 7)) m.hasState m.merged
          ((m.store name runtime update).remerge ord) with
        | some msg => m.subscribers.map (Subscriber.trySend msg)
        | none => m.subscribers := by
  obtain ⟨merged, hasState, subscribers⟩ := store_merged m name runtime update
  unfold Manager.handleUpdate
  dsimp only
  rw [merged, hasState]
  cases updateMessage (fun i => ord (i + 7)) m.hasState m.merged
    ((m.store name runtime update).remerge ord) with
  | some msg => exact ⟨rfl, by rw [← subscribers]; rfl⟩
  | none => exact ⟨rfl, subscribers⟩

theorem graphMsgs_trySend {s : Subscriber} (room : s.HasRoom) {msg : StateMessage} {gm : GraphMsg}
    (graph : msg.graphMsg = some gm) : (s.trySend msg).graphMsgs = s.graphMsgs ++ [gm] := by
  simp [Subscriber.trySend, room, Subscriber.graphMsgs, graph]

theorem graphMsg_stats (snap : StatsSnapshot) :
    StateMessage.graphMsg { type := "stats", stats := some snap } = none := by
  simp [StateMessage.graphMsg, msgTypeSnapshot, msgTypeDelta]

theorem graphMsgs_trySend_stats (s : Subscriber) (snap : StatsSnapshot) :
    (s.trySend { type := "stats", stats := some snap }).graphMsgs = s.graphMsgs := by
  unfold Subscriber.trySend
  split
  · simp [Subscriber.graphMsgs, graphMsg_stats]
  · rfl

/-- A new subscriber is sent the graph if it has nodes. -/
def newSubscriber (m : Manager) : Subscriber where
  id := m.nextID + 1
  buffer := if m.merged.nodes = [] then []
    else [{ type := msgTypeSnapshot, snapshot := some m.merged }]

theorem subscribe_subscribers (m : Manager) :
    m.subscribe.subscribers = m.subscribers ++ [newSubscriber m] := by
  unfold Manager.subscribe newSubscriber
  cases nodes : m.merged.nodes <;> simp

theorem graphMsgs_take (s : Subscriber) :
    Subscriber.graphMsgs { s with
      received := s.received ++ s.buffer.take 1
      buffer := s.buffer.drop 1 } = s.graphMsgs := by
  simp only [Subscriber.graphMsgs, List.append_assoc, List.take_append_drop]

/-! ## The invariant -/

/-- The subscriber's messages start with a snapshot and replay to `current`; it was sent nothing
only if there was no state yet. -/
structure Served (hasState : Bool) (current : GraphSnapshot) (s : Subscriber) : Prop where
  full : StartsFull s.graphMsgs
  onBase : OnBase GraphSnapshot.patch {} s.graphMsgs
  current : s.graphMsgs ≠ [] → replayed s.graphMsgs ≈ current
  silent : s.graphMsgs = [] → hasState = false

structure Serving (scheme : IDScheme) (m : Manager) : Prop where
  sound : m.Sound scheme
  served : ∀ s ∈ m.subscribers, Served m.hasState m.merged s

theorem served_advance {hadState : Bool} {prev new : GraphSnapshot} {s : Subscriber}
    {msgs : List GraphMsg} {gm : GraphMsg} (before : Served hadState prev s)
    (sent : msgs = s.graphMsgs ++ [gm]) (advances : Advances GraphSnapshot.patch prev gm new)
    (first : hadState = false → gm = .reset new) :
    StartsFull msgs ∧ OnBase GraphSnapshot.patch {} msgs ∧ replayed msgs ≈ new := by
  subst sent
  by_cases empty : s.graphMsgs = []
  · -- Nothing was sent because there was no state; then the message is a snapshot.
    obtain rfl := first (before.silent empty)
    rw [empty]
    exact ⟨trivial, ⟨trivial, trivial⟩, Setoid.refl new⟩
  · have leads : Leads GraphSnapshot.patch {} s.graphMsgs prev :=
      ⟨before.onBase, before.current empty⟩
    have after := leads.concat GraphSnapshot.patch_congr advances
    exact ⟨(startsFull_append empty).mpr before.full, after.onBase, after.ends⟩

/-- A subscriber's channel has room whenever something is sent to it. -/
def Roomy (m : Manager) : Call → Prop
  | .handleUpdate _ _ _ _ => ∀ s ∈ m.subscribers, s.HasRoom
  | .handleStats _ | .subscribe | .unsubscribe _ | .receive _ => True

instance (m : Manager) : (call : Call) → Decidable (Roomy m call)
  | .handleUpdate _ _ _ _ => inferInstanceAs (Decidable (∀ s ∈ m.subscribers, s.HasRoom))
  | .handleStats _ | .subscribe | .unsubscribe _ | .receive _ => .isTrue trivial

/-- What the contract needs of a call: room, IDs of the collectors' scheme, no change that is
hidden from the diff, and no subscription to an empty graph. -/
def Deliverable (scheme : IDScheme) (m : Manager) : Call → Prop
  | .handleUpdate ord name runtime update =>
    (∀ s ∈ m.subscribers, s.HasRoom) ∧ (∀ s, update.snapshot = some s → scheme.Follows s) ∧
      (m.hasState = true →
        NoHiddenChange m.merged ((m.store name runtime update).remerge ord))
  | .subscribe => m.hasState = true → m.merged.nodes ≠ []
  | .handleStats _ | .unsubscribe _ | .receive _ => True

section Calls

variable {m : Manager}

theorem served_handleUpdate (ord : Nat → RangeOrder) (name : String) (runtime : Bool) (update : StateUpdate)
    (served : ∀ s ∈ m.subscribers, Served m.hasState m.merged s) (unique : m.merged.UniqueIDs)
    (uniqueNew : ((m.store name runtime update).remerge ord).UniqueIDs) (room : ∀ s ∈ m.subscribers, s.HasRoom)
    (visible : m.hasState = true → NoHiddenChange m.merged ((m.store name runtime update).remerge ord)) :
    ∀ s ∈ (m.handleUpdate ord name runtime update).subscribers,
      Served true ((m.store name runtime update).remerge ord) s := by
  have advances := updateMessage_advances (fun i => ord (i + 7)) m.hasState unique uniqueNew visible
  rw [(handleUpdate_subscribers ord m name runtime update).2]
  split at advances
  next msg _ =>
    obtain ⟨gm, graph, advance, first⟩ := advances
    rw [List.forall_mem_map]
    intro s member
    have sent := graphMsgs_trySend (room s member) graph
    obtain ⟨full, onBase, current⟩ := served_advance (served s member) sent advance first
    exact ⟨full, onBase, fun _ => current, fun empty => by simp [sent] at empty⟩
  next =>
    -- no message: the graph is the same
    obtain ⟨hadState, same⟩ := advances
    intro s member
    have old := served s member
    exact ⟨old.full, old.onBase, fun some => Setoid.trans (old.current some) same,
      fun empty => by simpa [hadState] using old.silent empty⟩

theorem served_newSubscriber (nodes : m.hasState = true → m.merged.nodes ≠ []) :
    Served m.hasState m.merged (newSubscriber m) := by
  by_cases empty : m.merged.nodes = []
  · have sent : (newSubscriber m).graphMsgs = [] := by
      simp [newSubscriber, empty, Subscriber.graphMsgs]
    refine ⟨sent ▸ trivial, sent ▸ trivial, fun ne => absurd sent ne, fun _ => ?_⟩
    -- The graph has no nodes, so there is no state yet.
    by_contra hasState
    exact nodes (by simpa using hasState) empty
  · have sent : (newSubscriber m).graphMsgs = [.reset m.merged] := by
      simp only [newSubscriber, empty, if_false]
      rfl
    exact ⟨sent ▸ trivial, sent ▸ ⟨trivial, trivial⟩, fun _ => sent ▸ Setoid.refl m.merged,
      fun empty => by simp [sent] at empty⟩

/-- What a subscriber was sent is all that counts. -/
theorem Served.congr {hasState : Bool} {current : GraphSnapshot} {s t : Subscriber} (served : Served hasState current s)
    (same : t.graphMsgs = s.graphMsgs) : Served hasState current t :=
  ⟨same ▸ served.full, same ▸ served.onBase, same ▸ served.current, same ▸ served.silent⟩

end Calls

theorem serving_step {scheme : IDScheme} (m : Manager) (call : Call) (n : Manager)
    (before : Serving scheme m) (deliverable : Deliverable scheme m call)
    (step : m.step call = some n) : Serving scheme n := by
  have follows : call.Follows scheme := by
    cases call with
    | handleUpdate ord name runtime update => exact deliverable.2.1
    | handleStats | subscribe | unsubscribe | receive => trivial
  have sound := sound_step m call n before.sound follows step
  refine ⟨sound, ?_⟩
  cases call with
  | handleUpdate ord name runtime update =>
    cases step
    obtain ⟨room, _, visible⟩ := deliverable
    have closed := sound.closed
    rw [handleUpdate_merged] at closed
    rw [(handleUpdate_subscribers ord m name runtime update).1, handleUpdate_merged]
    exact served_handleUpdate ord name runtime update before.served before.sound.closed.uniqueIDs closed.uniqueIDs
      room visible
  | handleStats snap =>
    cases step
    intro t member
    obtain ⟨s, listed, rfl⟩ := List.mem_map.mp member
    exact (before.served s listed).congr (graphMsgs_trySend_stats s snap)
  | subscribe =>
    cases step
    rw [subscribe_subscribers]
    intro s member
    rcases List.mem_append.mp member with old | new
    · exact before.served s old
    · rw [List.mem_singleton.mp new]
      exact served_newSubscriber deliverable
  | unsubscribe id =>
    cases step
    exact fun s member => before.served s (List.mem_filter.mp member).1
  | receive id =>
    obtain ⟨_, rfl⟩ := receive_cases step
    intro t member
    obtain ⟨s, listed, rfl⟩ := List.mem_map.mp member
    have old := before.served s listed
    split
    · exact old.congr (graphMsgs_take s)
    · exact old

/-- In every run of deliverable calls, what each subscriber was sent starts with a snapshot and,
once there is something, replays to the current graph. -/
theorem subscription_contract (scheme : IDScheme) (calls : List Call) (m : Manager)
    (deliverable : Along Manager.step (Deliverable scheme) newManager calls)
    (run : exec Manager.step newManager calls = some m) :
    ∀ s ∈ m.subscribers, StartsFull s.graphMsgs ∧
      (s.graphMsgs ≠ [] → replayed s.graphMsgs ≈ m.current) := by
  have start : Serving scheme newManager := ⟨sound_newManager scheme, by simp [newManager]⟩
  have serving := exec_invariant serving_step start deliverable run
  exact fun s member => ⟨(serving.served s member).full, (serving.served s member).current⟩

/-- An update of the one source "docker". -/
def dockerUpdate (snapshot : GraphSnapshot) : Call :=
  .handleUpdate (fun _ => .asWritten) "docker" true ⟨some snapshot⟩

theorem orphan_follows : ∀ s, some orphan = some s → collectorIDs.Follows s := by
  rintro s ⟨⟩ n listed
  obtain rfl := List.mem_singleton.mp listed
  exact ⟨by decide, by decide⟩

/-- The one container of the source comes and goes under a subscriber. -/
def orphanDropped : Manager :=
  (newManager.subscribe.handleUpdate (fun _ => .asWritten) "docker" true ⟨some orphan⟩).handleUpdate
    (fun _ => .asWritten) "docker" true ⟨some {}⟩

theorem subscription_contract_orphan : orphanDropped.subscribers.length = 1 ∧
    ∀ s ∈ orphanDropped.subscribers, StartsFull s.graphMsgs := by
  refine ⟨rfl, fun s member => (subscription_contract collectorIDs
    [.subscribe, dockerUpdate orphan, dockerUpdate {}] _ ?_ rfl s member).1⟩
  refine ⟨(nomatch ·), ?_⟩
  rintro _ ⟨⟩
  refine ⟨⟨by decide, orphan_follows, (nomatch ·)⟩, ?_⟩
  rintro _ ⟨⟩
  refine ⟨⟨by decide, ?_, fun _ => ⟨by decide, by decide⟩⟩, fun _ _ => trivial⟩
  rintro s ⟨⟩
  simp [IDScheme.Follows]

theorem subscription_misses_empty_graph :
    ¬∀ (calls : List Call) (m : Manager), (∀ call ∈ calls, call.Follows collectorIDs) →
      Along Manager.step Roomy newManager calls →
      exec Manager.step newManager calls = some m →
      ∀ s ∈ m.subscribers, StartsFull s.graphMsgs ∧
        (s.graphMsgs ≠ [] → replayed s.graphMsgs ≈ m.current) := by
  intro contract
  have follows : ∀ call ∈ [dockerUpdate {}, .subscribe, dockerUpdate orphan],
      call.Follows collectorIDs := by
    simp only [List.forall_mem_cons, List.not_mem_nil, false_implies, implies_true, and_true]
    refine ⟨?_, trivial, orphan_follows⟩
    rintro s ⟨⟩
    simp [IDScheme.Follows]
  have roomy : Along Manager.step Roomy newManager
      [dockerUpdate {}, .subscribe, dockerUpdate orphan] := by
    refine ⟨by decide, ?_⟩
    rintro _ ⟨⟩
    refine ⟨trivial, ?_⟩
    rintro _ ⟨⟩
    exact ⟨by decide, fun _ _ => trivial⟩
  -- The subscriber joins after the empty graph was merged and is sent the difference to it.
  exact (contract _ _ follows roomy rfl _ List.mem_cons_self).1

end Dockgraph.State
