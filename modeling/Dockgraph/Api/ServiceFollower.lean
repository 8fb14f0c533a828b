import Dockgraph.Api.LogLines
import Dockgraph.Library.Transition

/-!
# The follower of a service (`logAggregator.run` and `follow`)

A service's log is in the order Docker sends it, which need not be that of the timestamps: every
task has its own clock and its own delays. The follower resumes after the last line it forwarded.
-/
namespace Dockgraph.Api

open Timestamp Suffix Transition

def resumeTailLines : Nat := 10000

/-- The lines an open stream has yet to send, if there is one; `returned` once Docker no longer
knows the service. -/
inductive FollowPhase
  | waiting
  | streaming (coming : List LogEntry)
  | returned
  deriving DecidableEq

/-- A service's log and its follower, without a cursor at first. -/
structure ServiceFollower where
  log : List LogEntry
  /-- The instant that the cursor names. -/
  since : Option Int := none
  last : String := ""
  phase : FollowPhase := .waiting
  /-- History: what went to the client, and the log's length at the first open. -/
  forwarded : List LogEntry := []
  firstOpen : Option Nat := none

namespace ServiceFollower

inductive Step
  | log (e : LogEntry)
  | openFails (notFound : Bool)
  | openStream
  | forward
  | streamEnds

/-- What Docker sends first on a stream: nothing with a tail of 0. -/
def replay (s : ServiceFollower) : List LogEntry :=
  match s.since with
  | none => []
  -- the tail bounds the lines before the cursor is looked at
  | some since => (newest resumeTailLines s.log).filter (atOrAfter since)

/-- The service logs a line; timestamps are distinct. -/
def logs (s : ServiceFollower) (e : LogEntry) : Option ServiceFollower :=
  if timeParse e.timestamp ≠ none ∧ ∀ k ∈ s.log, timeParse k.timestamp ≠ timeParse e.timestamp then
    let phase := match s.phase with
      | .streaming coming => .streaming (coming ++ [e])
      | phase => phase
    some { s with log := s.log ++ [e], phase }
  else none

/-- The call of `follow` is under way. -/
def follow (s : ServiceFollower) : ServiceFollower :=
  { s with last := "", firstOpen := s.firstOpen.or (some s.log.length) }

/-- The call of `follow` returned. -/
def resume (s : ServiceFollower) (notFound : Bool) : ServiceFollower :=
  if notFound then { s with phase := .returned }
  else
    match timeParse s.last with
    | some ts => { s with since := some (ts + 1), phase := .waiting }
    | none => { s with phase := .waiting }

def openFails (s : ServiceFollower) (notFound : Bool) : Option ServiceFollower :=
  -- a service that is gone ends the loop
  if s.phase = .waiting then some (s.follow.resume notFound) else none

def openStream (s : ServiceFollower) : Option ServiceFollower :=
  if s.phase = .waiting then some { s.follow with phase := .streaming s.replay } else none

/-- One pass of the callback of `eachLogEntry`. -/
def forward (s : ServiceFollower) : Option ServiceFollower :=
  match s.phase with
  | .streaming (e :: coming) =>
    some { s with
      phase := .streaming coming
      forwarded := s.forwarded ++ [e]
      -- lines without a timestamp do not move the cursor
      last := if e.timestamp ≠ "" then e.timestamp else s.last }
  | _ => none

/-- Lines that were on their way are lost with the stream. -/
def streamEnds (s : ServiceFollower) : Option ServiceFollower :=
  match s.phase with
  | .streaming _ => some (s.resume false)
  | _ => none

def step (s : ServiceFollower) : Step → Option ServiceFollower
  | .log e => s.logs e
  | .openFails notFound => s.openFails notFound
  | .openStream => s.openStream
  | .forward => s.forward
  | .streamEnds => s.streamEnds

/-- The lines logged since the first open attempt. -/
def sinceOpen (s : ServiceFollower) : List LogEntry :=
  match s.firstOpen with
  | none => []
  | some n => s.log.drop n

/-- The lines the stream has yet to send. -/
def coming (s : ServiceFollower) : List LogEntry :=
  match s.phase with
  | .streaming coming => coming
  | _ => []

end ServiceFollower

end Dockgraph.Api
