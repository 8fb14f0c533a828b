import Dockgraph.Api.Registration
import Dockgraph.Server.Pipeline
import Dockgraph.State.Subscription

/-!
# Deltas reach clients on their base

Between the hub's graph and the merged graph lie the messages the subscription still holds: they
lead from the one to the other. Together with what each client is still to be sent this keeps
every delta on the graph it was computed from, unless a message is dropped on the way.
-/
namespace Dockgraph.Server

open Collector Keyed Replica State Api Transition

/-! ## The messages between manager and hub -/

/-- Two graphs that may not exist yet, compared up to order. -/
def SameState : Option GraphSnapshot → Option GraphSnapshot → Prop
  | none, none => True
  | some g, some h => g ≈ h
  | _, _ => False

/-- The messages lead from one graph to the other; those without a graph are passed over. -/
inductive Chain : Option GraphSnapshot → List StateMessage → Option GraphSnapshot → Prop
  | nil {g h} : SameState g h → Chain g [] h
  | skip {g h msg rest} : msg.graphMsg = none → Chain g rest h → Chain g (msg :: rest) h
  | graph {g h msg new rest} : Continues g msg new → Chain (some new) rest h → Chain g (msg :: rest) h

theorem SameState.trans :
    ∀ {a b c : Option GraphSnapshot}, SameState a b → SameState b c → SameState a c
  | none, none, none, _, _ => trivial
  | some _, some _, some _, first, second => Setoid.trans first second

theorem SameState.refl : ∀ a, SameState a a
  | none => trivial
  | some g => Setoid.refl g

theorem continues_congr {a b : Option GraphSnapshot} {msg : StateMessage} {new : GraphSnapshot}
    (same : SameState a b) (continues : Continues b msg new) : Continues a msg new := by
  obtain ⟨snapshot, gm, graph, next⟩ := continues
  refine ⟨snapshot, gm, graph, ?_⟩
  cases a with
  | none =>
    cases b with
    | none => exact next
    | some h => exact same.elim
  | some g =>
    cases b with
    | none => exact same.elim
    | some h => exact Advances.congr_start GraphSnapshot.patch_congr (Setoid.symm same) next

theorem Chain.congr_end {g h k : Option GraphSnapshot} {msgs : List StateMessage}
    (chain : Chain g msgs h) (same : SameState h k) : Chain g msgs k := by
  induction chain with
  | nil here => exact .nil (here.trans same)
  | skip none _ ih => exact .skip none (ih same)
  | graph continues _ ih => exact .graph continues (ih same)

theorem Chain.concat {g h : Option GraphSnapshot} {msgs : List StateMessage} {msg : StateMessage}
    {new : GraphSnapshot} (chain : Chain g msgs h) (continues : Continues h msg new) :
    Chain g (msgs ++ [msg]) (some new) := by
  induction chain with
  | nil here => exact .graph (continues_congr here continues) (.nil (SameState.refl _))
  | skip none _ ih => exact .skip none (ih continues)
  | graph first _ ih => exact .graph first (ih continues)

theorem Chain.concat_skip {g h : Option GraphSnapshot} {msgs : List StateMessage}
    {msg : StateMessage} (chain : Chain g msgs h) (none : msg.graphMsg = none) :
    Chain g (msgs ++ [msg]) h := by
  induction chain with
  | nil here => exact .skip none (.nil here)
  | skip first _ ih => exact .skip first ih
  | graph first _ ih => exact .graph first ih

theorem wireMessage_eq_none {msg : StateMessage} : wireMessage msg = none ↔ msg.graphMsg = none := by
  rw [← graphMsg_wireMessage, Option.bind_eq_none_iff]
  constructor
  · intro none wire wired
    rw [none] at wired
    cases wired
  · intro graphless
    cases wired : wireMessage msg with
    | none => rfl
    | some wire =>
      -- A message that is sent carries a snapshot or a delta.
      have carries : wire.graphMsg ≠ none := by
        unfold wireMessage at wired
        split at wired
        · obtain ⟨_, _, rfl⟩ := Option.map_eq_some_iff.mp wired
          simp [newSnapshotMessage, WireMessage.graphMsg]
        · split at wired
          · obtain ⟨_, _, rfl⟩ := Option.map_eq_some_iff.mp wired
            simp [newDeltaMessage, WireMessage.graphMsg]
          · cases wired
      exact absurd (graphless wire wired) carries

/-! ## The invariant -/

/-- The graph of the manager once it has one. -/
def graphOf (m : Manager) : Option GraphSnapshot := if m.hasState then some m.merged else none

/-- The hub is the manager's only subscriber, and what the subscription holds leads from the
hub's graph to the manager's. -/
def Connected (p : Pipeline) : Prop :=
  match p.sub with
  | none => p.mgr.subscribers = [] ∧ p.inHand = none ∧ p.hub.current = none
  | some id => ∃ s, p.mgr.subscribers = [s] ∧ s.id = id ∧
    Chain p.hub.current (p.inHand.toList ++ s.buffer) (graphOf p.mgr)

structure Flowing (scheme : IDScheme) (id : Nat) (p : Pipeline) : Prop where
  sound : p.mgr.Sound scheme
  fresh : p.mgr.hasState = false → p.mgr.merged = {}
  connected : Connected p
  hub : HubInStep id p.hub

/-- Nothing is dropped on the way to the client: the hub's channel has room for an update and the
client's queue for a broadcast. Left out as well are changes the diff does not see, a
subscription to an empty graph, and a broadcast that overtakes a registration. -/
def Undropped (scheme : IDScheme) (id : Nat) (p : Pipeline) : PipelineStep → Prop
  | .handleUpdate ord name runtime update =>
    Deliverable scheme p.mgr (.handleUpdate ord name runtime update)
  | .subscribe => Deliverable scheme p.mgr .subscribe
  | .client k s => k = id → ∀ c ∈ p.hub.clients, c.id = id → OrderlyClient c s
  | .handleStats _ | .take | .broadcast | .register | .broadcastStats _ | .disconnect _
  | .shutdown => True

theorem trySend_roomy {s : Subscriber} (msg : StateMessage) (room : s.HasRoom) :
    (s.trySend msg).buffer = s.buffer ++ [msg] ∧ (s.trySend msg).id = s.id := by
  unfold Subscriber.trySend
  rw [if_pos room]
  exact ⟨rfl, rfl⟩

/-- A message that takes the manager's graph to the next one goes on from what the manager has. -/
theorem continues_graphOf {m : Manager} {msg : StateMessage} {gm : GraphMsg} {new : GraphSnapshot}
    (carries : msg.snapshot = some new) (graph : msg.graphMsg = some gm)
    (advances : Advances GraphSnapshot.patch m.merged gm new) (first : m.hasState = false → gm = .reset new) :
    Continues (graphOf m) msg new := by
  refine ⟨carries, gm, graph, ?_⟩
  unfold graphOf
  cases hadState : m.hasState with
  | false => exact first hadState
  | true => exact advances

section Steps

variable {scheme : IDScheme} {id : Nat} {p n : Pipeline}

theorem flowing_handleUpdate {ord : Nat → RangeOrder} {name : String} {runtime : Bool}
    {update : StateUpdate} (before : Flowing scheme id p)
    (undropped : Deliverable scheme p.mgr (.handleUpdate ord name runtime update)) :
    Flowing scheme id { p with mgr := p.mgr.handleUpdate ord name runtime update } := by
  obtain ⟨room, follows, visible⟩ := undropped
  have sound : (p.mgr.handleUpdate ord name runtime update).Sound scheme :=
    sound_step p.mgr (.handleUpdate ord name runtime update) _ before.sound follows rfl
  obtain ⟨hasState, subscribers⟩ := handleUpdate_subscribers ord p.mgr name runtime update
  have closed := sound.closed
  rw [handleUpdate_merged] at closed
  have advances := updateMessage_advances (fun i => ord (i + 7)) p.mgr.hasState
    before.sound.closed.uniqueIDs closed.uniqueIDs visible
  have after : graphOf (p.mgr.handleUpdate ord name runtime update) =
      some ((p.mgr.store name runtime update).remerge ord) := by
    simp [graphOf, hasState]
  refine ⟨sound, fun none => ?_, ?_, before.hub⟩
  · change (p.mgr.handleUpdate ord name runtime update).hasState = false at none
    rw [hasState] at none
    cases none
  have connected := before.connected
  unfold Connected at connected ⊢
  dsimp only
  cases subscribed : p.sub with
  | none =>
    rw [subscribed] at connected
    obtain ⟨nobody, inHand, current⟩ := connected
    refine ⟨?_, inHand, current⟩
    rw [subscribers, nobody]
    split <;> rfl
  | some k =>
    rw [subscribed] at connected
    obtain ⟨s, alone, named, chain⟩ := connected
    dsimp only
    rw [after, subscribers, alone]
    split at advances
    next msg told =>
      obtain ⟨gm, graph, advance, first⟩ := advances
      obtain ⟨sent, same⟩ := trySend_roomy msg (room s (by simp [alone]))
      refine ⟨s.trySend msg, rfl, same.trans named, ?_⟩
      rw [sent, ← List.append_assoc]
      exact chain.concat (continues_graphOf (snapshot_updateMessage told) graph advance first)
    next quiet =>
      obtain ⟨hadState, same⟩ := advances
      refine ⟨s, rfl, named, chain.congr_end ?_⟩
      simp only [graphOf, hadState, if_true]
      exact same

theorem flowing_handleStats {snap : StatsSnapshot} (before : Flowing scheme id p) :
    Flowing scheme id { p with mgr := p.mgr.handleStats snap } := by
  refine ⟨⟨before.sound.follows, before.sound.closed⟩, before.fresh, ?_, before.hub⟩
  have connected := before.connected
  unfold Connected at connected ⊢
  cases subscribed : p.sub with
  | none =>
    rw [subscribed] at connected
    obtain ⟨nobody, rest⟩ := connected
    exact ⟨by simp [Manager.handleStats, Manager.send, nobody], rest⟩
  | some k =>
    rw [subscribed] at connected
    obtain ⟨s, alone, named, chain⟩ := connected
    refine ⟨s.trySend { type := "stats", stats := some snap }, ?_, ?_, ?_⟩
    · simp [Manager.handleStats, Manager.send, alone]
    · unfold Subscriber.trySend
      split <;> exact named
    · unfold Subscriber.trySend
      split
      · -- A stats message is passed over; a dropped one changes nothing.
        rw [← List.append_assoc]
        exact chain.concat_skip (graphMsg_stats snap)
      · exact chain

theorem flowing_subscribe (before : Flowing scheme id p)
    (undropped : Deliverable scheme p.mgr .subscribe) (step : p.subscribe = some n) :
    Flowing scheme id n := by
  unfold Pipeline.subscribe at step
  cases subscribed : p.sub with
  | some k => simp [subscribed] at step
  | none =>
    simp only [subscribed] at step
    cases step
    refine ⟨⟨before.sound.follows, before.sound.closed⟩, before.fresh, ?_, before.hub⟩
    have connected := before.connected
    unfold Connected at connected
    rw [subscribed] at connected
    obtain ⟨nobody, inHand, current⟩ := connected
    unfold Connected
    dsimp only
    rw [inHand, current]
    refine ⟨newSubscriber p.mgr, by rw [subscribe_subscribers, nobody]; rfl, rfl, ?_⟩
    have state : graphOf p.mgr.subscribe = graphOf p.mgr := rfl
    rw [state, Option.toList_none, List.nil_append]
    by_cases nodes : p.mgr.merged.nodes = []
    · have none : p.mgr.hasState = false := by
        by_contra has
        exact undropped (by simpa using has) nodes
      simp only [newSubscriber, nodes, if_true, graphOf, none]
      exact .nil trivial
    · have has : p.mgr.hasState = true := by
        by_contra none
        exact nodes (by rw [before.fresh (by simpa using none)])
      simp only [newSubscriber, nodes, if_false, graphOf, has]
      exact .graph ⟨rfl, .reset p.mgr.merged, rfl, rfl⟩ (.nil (SameState.refl _))

theorem flowing_take (before : Flowing scheme id p) (step : p.take = some n) :
    Flowing scheme id n := by
  unfold Pipeline.take at step
  split at step
  next k subscribed empty =>
    split at step
    · obtain ⟨msg, waiting, step⟩ := Option.bind_eq_some_iff.mp step
      obtain ⟨mgr, received, rfl⟩ := Option.map_eq_some_iff.mp step
      obtain ⟨_, rfl⟩ := receive_cases received
      refine ⟨⟨before.sound.follows, before.sound.closed⟩, before.fresh, ?_, before.hub⟩
      have connected := before.connected
      unfold Connected at connected ⊢
      rw [subscribed] at connected
      obtain ⟨s, alone, named, chain⟩ := connected
      have buffered : s.buffer.head? = some msg := by
        simpa [Pipeline.next, alone, named] using waiting
      obtain ⟨rest, queue⟩ : ∃ rest, s.buffer = msg :: rest := by
        cases queue : s.buffer with
        | nil => simp [queue] at buffered
        | cons first rest =>
          rw [queue] at buffered
          cases buffered
          exact ⟨rest, rfl⟩
      simp only [subscribed]
      refine ⟨{ s with received := s.received ++ [msg], buffer := rest }, ?_, named, ?_⟩
      · simp [alone, named, queue]
      · rw [empty, queue] at chain
        exact chain
    · cases step
  · cases step

theorem flowing_broadcast (before : Flowing scheme id p) (step : p.broadcast = some n) :
    Flowing scheme id n := by
  unfold Pipeline.broadcast at step
  cases held : p.inHand with
  | none => simp [held] at step
  | some msg =>
    simp only [held] at step
    obtain ⟨hub, sent, rfl⟩ := Option.map_eq_some_iff.mp step
    have connected := before.connected
    unfold Connected at connected
    cases subscribed : p.sub with
    | none =>
      rw [subscribed] at connected
      rw [connected.2.1] at held
      cases held
    | some k =>
      rw [subscribed] at connected
      obtain ⟨s, alone, named, chain⟩ := connected
      rw [held, Option.toList_some, List.singleton_append] at chain
      -- Either the message has no graph and is not sent, or it continues from the hub's graph.
      have split : (wireMessage msg = none ∧ Chain p.hub.current s.buffer (graphOf p.mgr)) ∨
          ∃ new, Continues p.hub.current msg new ∧ Chain (some new) s.buffer (graphOf p.mgr) := by
        cases chain with
        | skip none rest => exact .inl ⟨wireMessage_eq_none.mpr none, rest⟩
        | graph continues rest => exact .inr ⟨_, continues, rest⟩
      have continues : wireMessage msg ≠ none → ∃ new, Continues p.hub.current msg new := by
        intro wired
        rcases split with ⟨none, _⟩ | ⟨new, continues, _⟩
        · exact absurd none wired
        · exact ⟨new, continues⟩
      refine ⟨before.sound, before.fresh, ?_, hubInStep_broadcast before.hub continues sent⟩
      unfold Connected
      dsimp only
      refine ⟨s, alone, named, ?_⟩
      rw [Option.toList_none, List.nil_append]
      rcases split with ⟨none, rest⟩ | ⟨new, continues, rest⟩
      · rw [current_broadcast_none sent none]
        exact rest
      · rw [current_broadcast sent continues]
        exact rest

theorem flowing_hubStep (s : HubStep) (before : Flowing scheme id p)
    (other : ∀ msg, s ≠ .broadcast msg) (orderly : Orderly id p.hub s)
    (step : p.hubStep s = some n) : Flowing scheme id n := by
  obtain ⟨hub, made, rfl⟩ := Option.map_eq_some_iff.mp step
  refine ⟨before.sound, before.fresh, ?_, hubInStep_step p.hub s hub before.hub orderly made⟩
  have connected := before.connected
  unfold Connected at connected ⊢
  rw [current_step made other]
  exact connected

theorem flowing_step (p : Pipeline) (s : PipelineStep) (n : Pipeline)
    (before : Flowing scheme id p) (undropped : Undropped scheme id p s)
    (step : p.step s = some n) : Flowing scheme id n := by
  cases s with
  | handleUpdate ord name runtime update =>
    cases step
    exact flowing_handleUpdate before undropped
  | handleStats snap =>
    cases step
    exact flowing_handleStats before
  | subscribe => exact flowing_subscribe before undropped step
  | take => exact flowing_take before step
  | broadcast => exact flowing_broadcast before step
  | register => exact flowing_hubStep .register before (by simp) trivial step
  | client k s => exact flowing_hubStep (.client k s) before (by simp) undropped step
  | broadcastStats snap => exact flowing_hubStep (.broadcastStats snap) before (by simp) trivial step
  | disconnect k => exact flowing_hubStep (.disconnect k) before (by simp) trivial step
  | shutdown => exact flowing_hubStep .shutdown before (by simp) trivial step

end Steps

theorem flowing_newPipeline (scheme : IDScheme) (id : Nat) : Flowing scheme id newPipeline :=
  ⟨sound_newManager scheme, fun _ => rfl, ⟨rfl, rfl, rfl⟩, hubInStep_newHub id⟩

/-! ## What a client sees -/

/-- The graph messages the client has received. -/
def receivedGraphs (c : Client) : List GraphMsg := c.received.filterMap WireMessage.graphMsg

/-- Nothing is on its way any more: the channel, the pipe, the broadcast and the client's queue
are empty. -/
structure Drained (p : Pipeline) (c : Client) : Prop where
  subscribed : p.sub ≠ none
  channel : ∀ s ∈ p.mgr.subscribers, s.buffer = []
  pipe : p.inHand = none
  registered : c.phase ≠ .registered
  due : c.due = none
  queue : c.sendCh = []

/-- When everything has drained, the hub has the manager's graph. -/
theorem hub_current {p : Pipeline} {c : Client} (connected : Connected p) (drained : Drained p c)
    (hasState : p.mgr.hasState = true) : ∃ g, p.hub.current = some g ∧ g ≈ p.mgr.current := by
  unfold Connected at connected
  obtain ⟨k, subscribed⟩ := Option.ne_none_iff_exists'.mp drained.subscribed
  rw [subscribed] at connected
  obtain ⟨s, alone, _, chain⟩ := connected
  -- no message is under way, so both ends of the chain are one state
  rw [drained.pipe, drained.channel s (by simp [alone])] at chain
  cases chain with
  | nil same =>
    rw [graphOf, hasState, if_pos rfl] at same
    cases current : p.hub.current with
    | none =>
      rw [current] at same
      exact same.elim
    | some g =>
      rw [current] at same
      exact ⟨g, rfl, same⟩

/-- In every run that drops nothing on the way to the client, the client applies every delta to
the graph it was computed from, whatever it held when it connected; once everything has drained
it holds the current graph. -/
theorem deltas_on_base (scheme : IDScheme) (id : Nat) (steps : List PipelineStep) (p : Pipeline)
    (undropped : Along Pipeline.step (Undropped scheme id) newPipeline steps)
    (run : exec Pipeline.step newPipeline steps = some p) :
    ∀ c ∈ p.hub.clients, c.id = id → ∀ held : GraphSnapshot,
      OnBase GraphSnapshot.patch held (receivedGraphs c) ∧
      (Drained p c → p.mgr.hasState = true →
        replay GraphSnapshot.patch held (receivedGraphs c) ≈ p.mgr.current) := by
  intro c member named held
  have flowing := exec_invariant flowing_step (flowing_newPipeline scheme id) undropped run
  have inStep := flowing.hub.inStep c member named
  have expected : c.expected = receivedGraphs c ++
      (c.sendCh.filterMap WireMessage.graphMsg ++ c.ownSnapshot ++ c.dueMsgs) := by
    simp [Client.expected, Client.graphMsgs, receivedGraphs]
  have tracks := inStep.tracks
  rw [expected] at tracks
  constructor
  · cases current : p.hub.current with
    | none =>
      rw [current] at tracks
      rw [(List.append_eq_nil_iff.mp tracks).1]
      trivial
    | some g =>
      rw [current] at tracks
      obtain ⟨_, full, leads⟩ := tracks
      exact onBase_startsFull (startsFull_of_append full) (onBase_append.mp leads.onBase).1
  · intro drained hasState
    have all : c.expected = receivedGraphs c := by
      rw [expected]
      simp [drained.queue, Client.ownSnapshot, drained.registered, Client.dueMsgs, drained.due]
    obtain ⟨g, current, same⟩ := hub_current flowing.connected drained hasState
    rw [← expected, all, current] at tracks
    obtain ⟨ne, full, leads⟩ := tracks
    rw [replay_startsFull full ne held {}]
    exact Setoid.trans leads.ends same

/-- The runtime source reports the one container in a state. -/
def report (status : String) : PipelineStep :=
  .handleUpdate (fun _ => .asWritten) "docker" true ⟨some (webGraph status)⟩

/-- A client connects before the first report. -/
def connect : List PipelineStep :=
  [.subscribe, .register, .client 0 .enqueueSnapshot, .client 0 .startPumps]

/-- The next message passes from the channel to the client. -/
def passOn : List PipelineStep := [.take, .broadcast, .client 0 .deliver, .client 0 .write]

theorem webGraph_follows (status : String) :
    ∀ s, some (webGraph status) = some s → collectorIDs.Follows s := by
  rintro s ⟨⟩ n listed
  obtain rfl := List.mem_singleton.mp listed
  exact ⟨List.mem_cons_self, rfl⟩

/-- A client sees a container run and stop. -/
def watched : List PipelineStep :=
  connect ++ [report "running"] ++ passOn ++ [report "exited"] ++ passOn

theorem deltas_on_base_watched :
    ∃ p, exec Pipeline.step newPipeline watched = some p ∧
      ∀ c ∈ p.hub.clients, c.id = 0 → ∀ held : GraphSnapshot,
        OnBase GraphSnapshot.patch held (receivedGraphs c) := by
  refine ⟨_, rfl, fun c member named held =>
    (deltas_on_base collectorIDs 0 watched _ ?_ rfl c member named held).1⟩
  have idle : ∀ {p : Pipeline} {s : ClientStep}, s ≠ .deliver →
      Undropped collectorIDs 0 p (.client 0 s) := by
    intro p s other _ c _ _
    cases s with
    | deliver => exact absurd rfl other
    | enqueueSnapshot | startPumps | deliverStats | write => trivial
  refine along_cons (nomatch ·) rfl <| along_cons trivial rfl <| along_cons (idle (by simp)) rfl <|
    along_cons (idle (by simp)) rfl <|
    along_cons ⟨by decide, webGraph_follows "running", (nomatch ·)⟩ rfl <|
    along_cons trivial rfl <| along_cons trivial rfl <| along_cons ?_ rfl <|
    along_cons (idle (by simp)) rfl <|
    along_cons ⟨by decide, webGraph_follows "exited", fun _ => ⟨by decide, by decide⟩⟩ rfl <|
    along_cons trivial rfl <| along_cons trivial rfl <| along_cons ?_ rfl <|
    along_cons (idle (by simp)) rfl trivial
  all_goals
    intro _ c member _
    obtain rfl := List.mem_singleton.mp member
    exact ⟨by decide, by decide⟩

/-- While the pipe stands still the channel fills; the next delta is dropped and the one after it
is sent. -/
def stalled : List PipelineStep :=
  connect ++ [report "running"] ++ (List.replicate 7 [report "exited", report "running"]).flatten ++
    [report "exited", report "paused"] ++ passOn ++ [report "running"] ++
    (List.replicate 16 passOn).flatten

theorem delta_dropped :
    ¬∀ (steps : List PipelineStep) (p : Pipeline),
      exec Pipeline.step newPipeline steps = some p →
      ∀ c ∈ p.hub.clients, OnBase GraphSnapshot.patch {} (receivedGraphs c) ∧
        (Drained p c → replayed (receivedGraphs c) ≈ p.mgr.current) := by
  intro onBase
  have offBase : (exec Pipeline.step newPipeline stalled).any (fun p => p.hub.clients.any fun c =>
      ¬OnBase GraphSnapshot.patch {} (receivedGraphs c)) = true := by
    decide +kernel
  obtain ⟨p, run, found⟩ := (Option.any_eq_true _ _).mp offBase
  obtain ⟨c, member, wrong⟩ := List.any_eq_true.mp found
  exact (of_decide_eq_true wrong) (onBase stalled p run c member).1

end Dockgraph.Server
