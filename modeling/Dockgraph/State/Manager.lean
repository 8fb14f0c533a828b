import Dockgraph.Collector.Stream
import Dockgraph.State.Diff
import Dockgraph.State.Merge

/-! The state manager (`state/manager.go`). Every method runs under the manager's lock, so a
call is one step. -/
namespace Dockgraph.State

open Collector Keyed Replica

/-- A subscriber and its channel. `received` is a history variable: what was taken from the
channel before what it buffers now. -/
structure Subscriber where
  id : Nat
  received : List StateMessage := []
  buffer : List StateMessage := []

namespace Subscriber

def capacity : Nat := 16

def HasRoom (s : Subscriber) : Prop := s.buffer.length < capacity

instance (s : Subscriber) : Decidable s.HasRoom := inferInstanceAs (Decidable (_ < _))

/-- `select { case ch <- msg: default: }`. -/
def trySend (msg : StateMessage) (s : Subscriber) : Subscriber :=
  if s.HasRoom then { s with buffer := s.buffer ++ [msg] } else s

/-- The graph messages sent to the subscriber so far. -/
def graphMsgs (s : Subscriber) : List GraphMsg :=
  (s.received ++ s.buffer).filterMap StateMessage.graphMsg

end Subscriber

structure Manager where
  snapshots : Snapshots := ∅
  runtimeSources : AList (fun _ : String => Bool) := ∅
  merged : GraphSnapshot := {}
  hasState : Bool := false
  subscribers : List Subscriber := []
  nextID : Nat := 0

/-- The message about the new merged graph, if any. -/
def updateMessage (ord : Nat → RangeOrder) (hadState : Bool) (prev snapshot : GraphSnapshot) :
    Option StateMessage :=
  if !hadState then
    some { type := msgTypeSnapshot, snapshot := some snapshot }
  else
    let (delta, changed) := diffSnapshots ord (some prev) (some snapshot)
    if !changed then none
    else some { type := msgTypeDelta, delta := some delta, snapshot := some snapshot, base := prev }

namespace Manager

def subscribe (m : Manager) : Manager :=
  let ch : Subscriber := { id := m.nextID + 1 }
  let ch := if m.merged.nodes.length > 0 then
      { ch with buffer := [{ type := msgTypeSnapshot, snapshot := some m.merged }] }
    else ch
  { m with nextID := m.nextID + 1, subscribers := m.subscribers ++ [ch] }

def unsubscribe (m : Manager) (id : Nat) : Manager :=
  { m with subscribers := m.subscribers.filter fun s => s.id ≠ id }

def current (m : Manager) : GraphSnapshot := m.merged

/-- The loop over the subscribers: the order does not matter, each channel is its own. -/
def send (m : Manager) (msg : StateMessage) : Manager :=
  { m with subscribers := m.subscribers.map (Subscriber.trySend msg) }

def store (m : Manager) (name : String) (runtime : Bool) (update : StateUpdate) : Manager :=
  match update.snapshot with
  | some snapshot =>
    { m with
      snapshots := m.snapshots.insert name snapshot
      runtimeSources := m.runtimeSources.insert name runtime }
  | none => m

/-- `m.runtimeSources[k]`: a missing key reads as false. -/
def isRuntime (m : Manager) (name : String) : Bool := (m.runtimeSources.lookup name).getD false

/-- Body of the loop over the sources. -/
def splitSource (m : Manager) (acc : Snapshots × Snapshots)
    (entry : (_ : String) × GraphSnapshot) : Snapshots × Snapshots :=
  if m.isRuntime entry.1 then (acc.1, acc.2.insert entry.1 entry.2)
  else (acc.1.insert entry.1 entry.2, acc.2)

/-- The sources' snapshots, declarative ones first. -/
def splitSources (ord : RangeOrder) (m : Manager) : Snapshots × Snapshots :=
  (ord.visit m.snapshots.entries).foldl m.splitSource (∅, ∅)

/-- `ord 0` is the order of the split, the next six are those of the merge. -/
def remerge (ord : Nat → RangeOrder) (m : Manager) : GraphSnapshot :=
  let (declarativeSnaps, runtimeSnaps) := m.splitSources (ord 0)
  mergeSnapshots (fun i => ord (i + 1)) declarativeSnaps runtimeSnaps

def handleUpdate (ord : Nat → RangeOrder) (m : Manager) (name : String) (runtime : Bool)
    (update : StateUpdate) : Manager :=
  let m := m.store name runtime update
  let prev := m.merged
  let hadState := m.hasState
  let m := { m with merged := m.remerge ord, hasState := true }
  match updateMessage (fun i => ord (i + 7)) hadState prev m.merged with
  | some msg => m.send msg
  | none => m

def handleStats (m : Manager) (snap : StatsSnapshot) : Manager :=
  m.send { type := "stats", stats := some snap }

/-- A subscriber takes the next message from its channel. -/
def receive (m : Manager) (id : Nat) : Option Manager :=
  if m.subscribers.any fun s => s.id = id ∧ s.buffer ≠ [] then
    some { m with subscribers := m.subscribers.map fun s =>
      if s.id = id then { s with received := s.received ++ s.buffer.take 1, buffer := s.buffer.drop 1 }
      else s }
  else none

end Manager

/-- The calls on a manager; an update comes with the orders of its map iterations. -/
inductive Call
  | handleUpdate (ord : Nat → RangeOrder) (name : String) (runtime : Bool) (update : StateUpdate)
  | handleStats (snap : StatsSnapshot)
  | subscribe
  | unsubscribe (id : Nat)
  | receive (id : Nat)

def Manager.step (m : Manager) : Call → Option Manager
  | .handleUpdate ord name runtime update => some (m.handleUpdate ord name runtime update)
  | .handleStats snap => some (m.handleStats snap)
  | .subscribe => some m.subscribe
  | .unsubscribe id => some (m.unsubscribe id)
  | .receive id => m.receive id

def newManager : Manager := {}

end Dockgraph.State
