import Mathlib.Algebra.Group.Int.Defs
import Mathlib.Data.List.AList

/-!
# Concurrency slots (`api/limits.go`, `HandleWS` of `api/ws.go`)

Requests and WebSocket connections take and return slots one at a time, each call under the
limiter's lock, in any interleaving. A list of limiters names them by an arbitrary type.
-/
namespace Dockgraph.Api

def maxInt : Int := 2 ^ 63 - 1

structure SlotLimiter where
  total : Int
  perClient : AList (fun _ : String => Int)
  maxTotal : Int
  maxPerClient : Int

/-- A bound of 0 or less means none. -/
def newSlotLimiter (maxTotal maxPerClient : Int) : SlotLimiter where
  total := 0
  perClient := ∅
  maxTotal := if maxTotal ≤ 0 then maxInt else maxTotal
  maxPerClient := if maxPerClient ≤ 0 then maxInt else maxPerClient

namespace SlotLimiter

/-- `l.perClient[client]` -/
def held (l : SlotLimiter) (client : String) : Int := (l.perClient.lookup client).getD 0

/-- The limiter with a slot taken, or nothing when either bound is reached. -/
def acquire (l : SlotLimiter) (client : String) : Option SlotLimiter :=
  if l.total ≥ l.maxTotal then none
  else if l.held client ≥ l.maxPerClient then none
  else
    some { l with
      total := l.total + 1
      perClient := l.perClient.insert client (l.held client + 1) }

def release (l : SlotLimiter) (client : String) : SlotLimiter :=
  { l with
    total := l.total - 1
    perClient :=
      if l.held client ≤ 1 then l.perClient.erase client
      else l.perClient.insert client (l.held client - 1) }

end SlotLimiter

/-- How far a party has come. A request has the limiters it goes through, a connection the one. -/
inductive SlotPhase (ι : Type)
  /-- `limitConcurrent`: the slots it holds, and the limiters still to ask. -/
  | acquiring (held rest : List ι)
  /-- Refused: the slots still to give back. -/
  | rollingBack (left : List ι)
  /-- In the handler. -/
  | serving (held : List ι)
  /-- The handler has ended. -/
  | releasing (left : List ι)
  /-- `HandleWS` before it asks. -/
  | connecting (limiter : ι)
  /-- `HandleWS` before it looks whether the hub is closed. -/
  | admitted (limiter : ι)
  /-- The pumps are running. -/
  | connected (limiter : ι)
  | ended (refused : Bool)

/-- A request or a connection, of one client. -/
structure SlotParty (ι : Type) where
  client : String
  phase : SlotPhase ι

structure Slots (ι : Type) where
  limiters : ι → SlotLimiter
  parties : List (SlotParty ι) := []

inductive SlotEvent (ι : Type)
  | request (client : String) (limiters : List ι)
  | connect (client : String) (limiter : ι)
  /-- A party's next step: a handler or a connection may end at any time, and a connection that
  was admitted finds the hub closed or not. -/
  | next (party : Nat) (closed : Bool)

namespace Slots

variable {ι : Type} [DecidableEq ι]

/-- One step of a party, with what it makes of the limiters. -/
def advance (limiters : ι → SlotLimiter) (client : String) (closed : Bool) :
    SlotPhase ι → (ι → SlotLimiter) × SlotPhase ι
  | .acquiring held [] => (limiters, .serving held)
  | .acquiring held (l :: rest) =>
    match (limiters l).acquire client with
    | none => (limiters, .rollingBack held)
    | some taken => (Function.update limiters l taken, .acquiring (held ++ [l]) rest)
  | .rollingBack [] => (limiters, .ended true)
  | .rollingBack (l :: left) =>
    (Function.update limiters l ((limiters l).release client), .rollingBack left)
  | .serving held => (limiters, .releasing held)
  | .releasing [] => (limiters, .ended false)
  | .releasing (l :: left) =>
    (Function.update limiters l ((limiters l).release client), .releasing left)
  | .connecting l =>
    match (limiters l).acquire client with
    | none => (limiters, .ended true)
    | some taken => (Function.update limiters l taken, .admitted l)
  | .admitted l =>
    if closed then (Function.update limiters l ((limiters l).release client), .ended true)
    else (limiters, .connected l)
  | .connected l => (Function.update limiters l ((limiters l).release client), .ended false)
  | .ended refused => (limiters, .ended refused)

def step (s : Slots ι) : SlotEvent ι → Slots ι
  | .request client limiters =>
    { s with parties := s.parties ++ [{ client, phase := .acquiring [] limiters }] }
  | .connect client limiter =>
    { s with parties := s.parties ++ [{ client, phase := .connecting limiter }] }
  | .next i closed =>
    match s.parties[i]? with
    | none => s
    | some party =>
      let moved := advance s.limiters party.client closed party.phase
      { limiters := moved.1, parties := s.parties.set i { party with phase := moved.2 } }

def start (bounds : ι → Int × Int) : Slots ι where
  limiters l := newSlotLimiter (bounds l).1 (bounds l).2

end Slots

end Dockgraph.Api
