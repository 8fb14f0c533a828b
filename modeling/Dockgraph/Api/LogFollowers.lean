import Dockgraph.Collector.SwarmSnapshot

/-!
# Followers of the live aggregate log (`api/logs_aggregate.go`)

Docker's containers and services change while `HandleAggregateLogs` lists them, seeds its
followers, subscribes to the events and handles them, one step at a time.
-/
namespace Dockgraph.Api

open Collector

/-! ## Scope -/

def selfExcludeValue : String := "true"

def isSelf (labels : StringMap) : Bool := labels.get selfExcludeLabel = selfExcludeValue

structure LogScope where
  stack : String := ""
  /-- `services` is not nil. -/
  services : Bool := false

namespace LogScope

def includeContainer (s : LogScope) (labels : StringMap) : Bool :=
  if isSelf labels then false
  else if s.services ∧ isTaskContainer labels then false
  else s.stack = "" ∨ projectOf labels = s.stack

/-- The label filter is Docker's, the other two conditions are the loop's. -/
def listServices (s : LogScope) (services : List Swarm.Service) : List Swarm.Service :=
  services.filter fun svc =>
    (s.stack = "" ∨ svc.labels.get stackNamespaceLabel = s.stack) ∧
      ¬isServiceSelfExcluded svc ∧ ¬(s.stack ≠ "" ∧ projectOf svc.labels ≠ s.stack)

end LogScope

/-! ## The aggregator -/

/-- A goroutine of `run`. Its token stands for the address of its `follower`. -/
structure Follower where
  id : String
  name : String
  token : Nat
  deriving DecidableEq

structure LogAggregator where
  followers : AList (fun _ : String => Nat) := ∅
  goroutines : List Follower := []
  nextToken : Nat := 0

namespace LogAggregator

def addSource (a : LogAggregator) (id name : String) : LogAggregator :=
  -- a follower that is already there keeps its goroutine
  if id ∈ a.followers then a
  else
    { followers := a.followers.insert id a.nextToken
      goroutines := a.goroutines ++ [{ id, name, token := a.nextToken }]
      nextToken := a.nextToken + 1 }

/-- The goroutine goes on until it finds that its context ended. -/
def remove (a : LogAggregator) (id : String) : LogAggregator :=
  { a with followers := a.followers.erase id }

/-- The last a goroutine does. -/
def forget (a : LogAggregator) (f : Follower) : LogAggregator :=
  { a with
    -- a later follower of the same container has another token
    followers := if a.followers.lookup f.id = some f.token then a.followers.erase f.id else a.followers
    goroutines := a.goroutines.erase f }

/-- The follower's context ended. -/
def cancelled (a : LogAggregator) (f : Follower) : Bool := a.followers.lookup f.id ≠ some f.token

end LogAggregator

/-! ## Docker -/

inductive Action
  | start
  | die
  | stop
  | kill
  | destroy
  | create
  | remove
  | other
  deriving DecidableEq

inductive EventType
  | container
  | service
  deriving DecidableEq

structure Message where
  type : EventType
  action : Action
  actor : String
  attributes : StringMap := none

/-- What does not change about the containers: their names and labels by ID. A service has an ID
that no container has. -/
structure Docker where
  name : String → String
  labels : String → StringMap
  isService : String → Bool

namespace Docker

def attributes (d : Docker) (id : String) : StringMap :=
  some ((d.labels id).entries.insert "name" (d.name id))

def containerMessage (d : Docker) (id : String) (action : Action) : Message :=
  { type := .container, action, actor := id, attributes := d.attributes id }

end Docker

structure Summary where
  id : String
  name : String
  labels : StringMap
  deriving DecidableEq

/-- How far the handler got. -/
inductive StreamPhase
  | connected
  | seeding (summaries : List Summary)
  | subscribing
  | watching
  deriving DecidableEq

/-- Docker and one handler of the live log. -/
structure LogStream where
  running : List String := []
  services : List Swarm.Service := []
  phase : StreamPhase := .connected
  /-- Events sent since the subscription and not handled yet. -/
  events : List Message := []
  agg : LogAggregator := {}
  /-- Goroutines that are done but for their deferred `forget`. -/
  returning : List Follower := []

inductive Change
  | start (id : String)
  /-- The container ended, by itself or by `docker stop`. -/
  | exit (id : String) (stopped : Bool)
  /-- A signal that does not end the container, or not yet. -/
  | signal (id : String)
  | destroy (id : String)
  | other (id : String)
  | createService (svc : Swarm.Service)
  | removeService (id : String)

namespace LogStream

/-- Only what happens after the subscription is sent. -/
def emit (s : LogStream) (messages : List Message) : LogStream :=
  -- what happens before the subscription is never sent
  if s.phase = .watching then { s with events := s.events ++ messages } else s

def change (d : Docker) (s : LogStream) : Change → Option LogStream
  | .start id =>
    if d.isService id ∨ id ∈ s.running then none
    else some ({ s with running := s.running ++ [id] }.emit [d.containerMessage id .start])
  | .exit id stopped =>
    if id ∈ s.running then
      some ({ s with running := s.running.filter fun k => k ≠ id }.emit
        -- Docker sends `stop` after `die`
        (d.containerMessage id .die :: if stopped then [d.containerMessage id .stop] else []))
    else none
  | .signal id => if id ∈ s.running then some (s.emit [d.containerMessage id .kill]) else none
  | .destroy id =>
    if d.isService id ∨ id ∈ s.running then none
    else some (s.emit [d.containerMessage id .destroy])
  | .other id => if d.isService id then none else some (s.emit [d.containerMessage id .other])
  | .createService svc =>
    if d.isService svc.id then
      some ({ s with services := s.services ++ [svc] }.emit
        [{ type := .service, action := .create, actor := svc.id }])
    else none
  | .removeService id =>
    if d.isService id then
      some ({ s with services := s.services.filter fun svc => svc.id ≠ id }.emit
        [{ type := .service, action := .remove, actor := id }])
    else none

/-! ## The handler -/

/-- The containers Docker lists without `All` are the running ones. -/
def containerList (d : Docker) (s : LogStream) : List Summary :=
  s.running.map fun id => { id, name := d.name id, labels := d.labels id }

/-- `listed` is false when the call of `ContainerList` fails. -/
def list (d : Docker) (s : LogStream) (listed : Bool) : Option LogStream :=
  if s.phase = .connected then
    -- a failed listing leaves nothing to seed
    some { s with phase := .seeding (if listed then s.containerList d else []) }
  else none

/-- One pass of the loop over the summaries. -/
def seed (scope : LogScope) (s : LogStream) : Option LogStream :=
  match s.phase with
  | .seeding (c :: rest) =>
    some { s with
      phase := .seeding rest
      agg := if scope.includeContainer c.labels then s.agg.addSource c.id c.name else s.agg }
  | _ => none

def addServices (scope : LogScope) (s : LogStream) (listed : Bool) : LogStream :=
  if scope.services ∧ listed then
    { s with agg := (scope.listServices s.services).foldl (fun a svc => a.addSource svc.id svc.name) s.agg }
  else s

def seedServices (scope : LogScope) (s : LogStream) (listed : Bool) : Option LogStream :=
  match s.phase with
  | .seeding [] => some { s.addServices scope listed with phase := .subscribing }
  | _ => none

def subscribe (s : LogStream) : Option LogStream :=
  if s.phase = .subscribing then some { s with phase := .watching } else none

def handleContainer (scope : LogScope) (a : LogAggregator) (msg : Message) : LogAggregator :=
  match msg.action with
  | .start =>
    -- the labels are those of the event
    if scope.includeContainer msg.attributes then a.addSource msg.actor (msg.attributes.get "name")
    else a
  -- a `kill` ends the follower of a container that may survive it
  | .die | .destroy | .stop | .kill => a.remove msg.actor
  | _ => a

def handleService (scope : LogScope) (s : LogStream) (msg : Message) (listed : Bool) : LogStream :=
  match msg.action with
  -- the services are listed again, whichever one was created
  | .create => s.addServices scope listed
  | .remove => { s with agg := s.agg.remove msg.actor }
  | _ => s

/-- One pass of the event loop. -/
def handle (scope : LogScope) (s : LogStream) (listed : Bool) : Option LogStream :=
  match s.events with
  | [] => none
  | msg :: rest =>
    let s := { s with events := rest }
    match msg.type with
    | .service => some (s.handleService scope msg listed)
    | .container => some { s with agg := handleContainer scope s.agg msg }

/-- A goroutine returns once its context ended, its container's stream ended, or its service is gone.
A container's stream does not end while the container runs. -/
def streamEnds (d : Docker) (s : LogStream) (f : Follower) : Option LogStream :=
  if f ∈ s.agg.goroutines ∧ f ∉ s.returning ∧ (s.agg.cancelled f ∨
      if d.isService f.id then ∀ svc ∈ s.services, svc.id ≠ f.id else f.id ∉ s.running) then
    some { s with returning := s.returning ++ [f] }
  else none

/-- The deferred `forget`, whenever the goroutine gets the lock. -/
def forget (s : LogStream) (f : Follower) : Option LogStream :=
  if f ∈ s.returning then some { s with agg := s.agg.forget f, returning := s.returning.erase f } else none

inductive Step
  | change (c : Change)
  | list (listed : Bool)
  | seed
  | seedServices (listed : Bool)
  | subscribe
  | handle (listed : Bool)
  | streamEnds (f : Follower)
  | forget (f : Follower)

def step (d : Docker) (scope : LogScope) (s : LogStream) : Step → Option LogStream
  | .change c => s.change d c
  | .list listed => s.list d listed
  | .seed => s.seed scope
  | .seedServices listed => s.seedServices scope listed
  | .subscribe => s.subscribe
  | .handle listed => s.handle scope listed
  | .streamEnds f => s.streamEnds d f
  | .forget f => s.forget f

/-- The container has a follower. -/
def Followed (s : LogStream) (id : String) : Prop := id ∈ s.agg.followers

instance (s : LogStream) (id : String) : Decidable (s.Followed id) :=
  inferInstanceAs (Decidable (id ∈ s.agg.followers))

end LogStream

end Dockgraph.Api
