import Dockgraph.Collector.Stream

/-!
# The WebSocket hub (`api/ws.go`)

A step is a critical section or one send on a client's queue. `Broadcast` and `BroadcastStats`
copy the client list under the lock and then send to each copied client: a client the copy
holds and the loop has not reached yet has the message `due`. The connection limits decide
whether `HandleWS` gets to register at all and are not part of this model.
-/
namespace Dockgraph.Api

open Collector

/-- How far `HandleWS` got with a registered client. -/
inductive Phase
  | registered
  | enqueued
  | running
  deriving DecidableEq

structure Client where
  id : Nat
  phase : Phase := .registered
  /-- What `HandleWS` read of `h.current`. -/
  snapshot : Option GraphSnapshot
  sendCh : List WireMessage := []
  due : Option WireMessage := none
  dueStats : Option WireMessage := none
  /-- History: what the writer took from the queue. -/
  received : List WireMessage := []

namespace Client

def capacity : Nat := 32

def HasRoom (c : Client) : Prop := c.sendCh.length < capacity

instance (c : Client) : Decidable c.HasRoom := inferInstanceAs (Decidable (_ < _))

/-- `select { case client.sendCh <- wire: default: }`. -/
def trySend (c : Client) (wire : WireMessage) : Client :=
  if c.HasRoom then { c with sendCh := c.sendCh ++ [wire] } else c

/-- The snapshot is sent before anything reads the queue; a full queue blocks. -/
def enqueueSnapshot (c : Client) : Option Client :=
  if c.phase = .registered then
    match c.snapshot with
    | none => some { c with phase := .enqueued }
    | some snapshot =>
      if c.HasRoom then
        some { c with sendCh := c.sendCh ++ [newSnapshotMessage snapshot], phase := .enqueued }
      else none
  else none

def startPumps (c : Client) : Option Client :=
  if c.phase = .enqueued then some { c with phase := .running } else none

/-- One pass of the loop of `Broadcast`. -/
def deliver (c : Client) : Option Client :=
  c.due.map fun wire => { c with due := none }.trySend wire

/-- One pass of the loop of `sendToAll`. -/
def deliverStats (c : Client) : Option Client :=
  c.dueStats.map fun wire => { c with dueStats := none }.trySend wire

/-- The writer takes the next message. -/
def write (c : Client) : Option Client :=
  if c.phase = .running then
    match c.sendCh with
    | [] => none
    | wire :: rest => some { c with sendCh := rest, received := c.received ++ [wire] }
  else none

/-- The graph messages sent to the client so far, in queue order. -/
def graphMsgs (c : Client) : List GraphMsg :=
  (c.received ++ c.sendCh).filterMap WireMessage.graphMsg

end Client

/-- The steps of one client's goroutines and of the loops that send to it. -/
inductive ClientStep
  | enqueueSnapshot
  | startPumps
  | deliver
  | deliverStats
  | write

def Client.step (c : Client) : ClientStep → Option Client
  | .enqueueSnapshot => c.enqueueSnapshot
  | .startPumps => c.startPumps
  | .deliver => c.deliver
  | .deliverStats => c.deliverStats
  | .write => c.write

structure Hub where
  clients : List Client := []
  current : Option GraphSnapshot := none
  closed : Bool := false
  nextID : Nat := 0

/-- The switch at the start of `Broadcast`. -/
def wireMessage (msg : StateMessage) : Option WireMessage :=
  if msg.type = msgTypeSnapshot ∧ msg.snapshot.isSome then msg.snapshot.map newSnapshotMessage
  else if msg.type = msgTypeDelta then msg.delta.map fun d => newDeltaMessage d msg.base
  else none

namespace Hub

/-- The critical section of `HandleWS`; a closed hub drops the connection. -/
def register (h : Hub) : Hub :=
  if h.closed then h
  else { h with nextID := h.nextID + 1, clients := h.clients ++ [{ id := h.nextID, snapshot := h.current }] }

def clientStep (h : Hub) (id : Nat) (s : ClientStep) : Option Hub :=
  match h.clients.find? fun c => c.id = id with
  | none => none
  | some c => (c.step s).map fun c' =>
    { h with clients := h.clients.map fun d => if d.id = id then c' else d }

/-- The switch and the critical section of `Broadcast`. Calls are made one after another. -/
def broadcast (h : Hub) (msg : StateMessage) : Option Hub :=
  if h.clients.all fun c => c.due.isNone then
    match wireMessage msg with
    | none => some h
    | some wire =>
      some { h with
        current := msg.snapshot.or h.current
        clients := h.clients.map fun c => { c with due := some wire } }
  else none

/-- `snapshotClients` of `BroadcastStats`. -/
def broadcastStats (h : Hub) (snap : StatsSnapshot) : Option Hub :=
  if h.clients.all fun c => c.dueStats.isNone then
    some { h with clients := h.clients.map fun c => { c with dueStats := some (newStatsMessage snap) } }
  else none

/-- The reader of a running client fails and unregisters it. -/
def disconnect (h : Hub) (id : Nat) : Option Hub :=
  if h.clients.any fun c => c.id = id ∧ c.phase = .running then
    some { h with clients := h.clients.filter fun c => c.id ≠ id }
  else none

def shutdown (h : Hub) : Hub := { h with closed := true }

end Hub

inductive HubStep
  | register
  | client (id : Nat) (s : ClientStep)
  | broadcast (msg : StateMessage)
  | broadcastStats (snap : StatsSnapshot)
  | disconnect (id : Nat)
  | shutdown

def Hub.step (h : Hub) : HubStep → Option Hub
  | .register => some h.register
  | .client id s => h.clientStep id s
  | .broadcast msg => h.broadcast msg
  | .broadcastStats snap => h.broadcastStats snap
  | .disconnect id => h.disconnect id
  | .shutdown => some h.shutdown

def newHub : Hub := {}

end Dockgraph.Api
