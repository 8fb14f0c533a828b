import Dockgraph.Api.Hub
import Dockgraph.State.Manager

/-! From the collectors to the clients (`main.go`): the manager, the hub's subscription to it,
`pipeToHub` and the hub. -/
namespace Dockgraph.Server

open Collector Keyed State Api

structure Pipeline where
  mgr : Manager := newManager
  /-- The hub's subscription. -/
  sub : Option Nat := none
  /-- The message `pipeToHub` took from the channel and has not broadcast yet. -/
  inHand : Option StateMessage := none
  hub : Hub := newHub

namespace Pipeline

/-- The server subscribes the hub once, maybe after the first updates. -/
def subscribe (p : Pipeline) : Option Pipeline :=
  match p.sub with
  | none => some { p with mgr := p.mgr.subscribe, sub := some p.mgr.subscribe.nextID }
  | some _ => none

/-- What is next in the channel of a subscription. -/
def next (m : Manager) (id : Nat) : Option StateMessage :=
  (m.subscribers.find? fun s => s.id = id).bind fun s => s.buffer.head?

/-- `msg, ok := <-sub`, once the last `Broadcast` has returned. -/
def take (p : Pipeline) : Option Pipeline :=
  match p.sub, p.inHand with
  | some id, none =>
    if p.hub.clients.all fun c => c.due.isNone then
      (next p.mgr id).bind fun msg =>
        (p.mgr.receive id).map fun mgr => { p with mgr, inHand := some msg }
    else none
  | _, _ => none

/-- `hub.Broadcast(msg)`. -/
def broadcast (p : Pipeline) : Option Pipeline :=
  match p.inHand with
  | some msg => (p.hub.broadcast msg).map fun hub => { p with hub, inHand := none }
  | none => none

end Pipeline

inductive PipelineStep
  | handleUpdate (ord : Nat → RangeOrder) (name : String) (runtime : Bool) (update : StateUpdate)
  | handleStats (snap : StatsSnapshot)
  | subscribe
  | take
  | broadcast
  | register
  | client (id : Nat) (s : ClientStep)
  | broadcastStats (snap : StatsSnapshot)
  | disconnect (id : Nat)
  | shutdown

def Pipeline.hubStep (p : Pipeline) (s : HubStep) : Option Pipeline :=
  (p.hub.step s).map fun hub => { p with hub }

def Pipeline.step (p : Pipeline) : PipelineStep → Option Pipeline
  | .handleUpdate ord name runtime update =>
    some { p with mgr := p.mgr.handleUpdate ord name runtime update }
  | .handleStats snap => some { p with mgr := p.mgr.handleStats snap }
  | .subscribe => p.subscribe
  | .take => p.take
  | .broadcast => p.broadcast
  | .register => p.hubStep .register
  | .client id s => p.hubStep (.client id s)
  | .broadcastStats snap => p.hubStep (.broadcastStats snap)
  | .disconnect id => p.hubStep (.disconnect id)
  | .shutdown => p.hubStep .shutdown

def newPipeline : Pipeline := {}

end Dockgraph.Server
