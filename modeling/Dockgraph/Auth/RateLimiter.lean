import Mathlib.Data.List.DropRight
import Mathlib.Algebra.Order.Group.Int

/-!
# The login rate limiter (`auth/ratelimit.go`, `auth/handlers.go`)

Times are nanoseconds. A bucket of the list stands for its element and for its entry in the map, so
the keys of the list are unique.
-/
namespace Dockgraph.Auth

def maxRateLimitKeys : Nat := 10000

structure Bucket where
  key : String
  times : List Int := []
  lastSeen : Int
  /-- `none` is the zero time. -/
  refusedAt : Option Int := none

/-- Most recently active first. -/
structure RateLimiter where
  order : List Bucket := []
  limit : Nat
  window : Int
  maxKeys : Nat := maxRateLimitKeys

def newRateLimiter (limit : Nat) (window : Int) : RateLimiter := { limit, window }

/-- Drops the attempts at the front that are at or before the cutoff. -/
def Bucket.expire (b : Bucket) (cutoff : Int) : Bucket :=
  { b with times := b.times.dropWhile fun t => t ≤ cutoff }

namespace RateLimiter

/-- From the back up to the first client that is still active. -/
def removeStale (rl : RateLimiter) (cutoff : Int) : RateLimiter :=
  { rl with order := rl.order.rdropWhile fun b => b.lastSeen ≤ cutoff }

def bucket (rl : RateLimiter) (key : String) : Option Bucket := rl.order.find? fun b => b.key = key

/-- The list without the bucket of the key. -/
def others (rl : RateLimiter) (key : String) : List Bucket := rl.order.filter fun b => b.key ≠ key

/-- The bucket of the key, and the buckets behind it. -/
def touch (rl : RateLimiter) (key : String) (now : Int) : Bucket × List Bucket :=
  match rl.bucket key with
  | some b => ({ b with lastSeen := now }, rl.others key)
  | none =>
    -- a new client takes the place of the one seen longest ago
    let rest := if rl.order.length ≥ rl.maxKeys then rl.order.dropLast else rl.order
    ({ key, lastSeen := now }, rest)

/-- Whether the attempt is allowed, and whether it is the first refusal. -/
def attempt (rl : RateLimiter) (key : String) (now : Int) : (Bool × Bool) × RateLimiter :=
  let cutoff := now - rl.window
  let rl := rl.removeStale cutoff
  let (b, rest) := rl.touch key now
  let b := b.expire cutoff
  -- a refused attempt is not counted, but its client counts as seen
  if b.times.length ≥ rl.limit then
    let firstRefusal := !b.refusedAt.any fun t => t > cutoff
    let b := if firstRefusal then { b with refusedAt := some now } else b
    ((false, firstRefusal), { rl with order := b :: rest })
  else ((true, false), { rl with order := { b with times := b.times ++ [now] } :: rest })

/-- The most recent attempt of the key goes. -/
def forget (rl : RateLimiter) (key : String) : RateLimiter :=
  match rl.bucket key with
  | none => rl
  | some b =>
    match b.times.length with
    | 0 => rl
    -- a client without attempts goes
    | 1 => { rl with order := rl.others key }
    -- the newest time goes, whichever login it was for
    | _ =>
      { rl with
        order := rl.order.map fun c => if c.key = key then { c with times := c.times.dropLast } else c }

def cleanup (rl : RateLimiter) (now : Int) : RateLimiter := rl.removeStale (now - rl.window)

end RateLimiter

/-! ## Logins -/

/-- History: an attempt that was allowed. -/
structure Attempt where
  key : String
  time : Int
  /-- No password slot was free (`ErrBusy`), so the attempt was withdrawn. -/
  withdrawn : Bool := false

/-- The clock, the limiter, and the logins that got past it. -/
structure Logins where
  clock : Int
  limiter : RateLimiter
  attempts : List Attempt := []

namespace Logins

inductive Step
  | tick (d : Nat)
  /-- A login request of a client arrives. -/
  | attempt (key : String)
  /-- A login finds all slots taken. -/
  | forget (i : Nat)
  | cleanup

def withdraw (s : Logins) (i : Nat) : Option Logins :=
  match s.attempts[i]? with
  | none => none
  | some a =>
    -- a login waits for a slot for less than the window
    if a.withdrawn ∨ s.clock - a.time ≥ s.limiter.window then none
    else
      some { s with
        limiter := s.limiter.forget a.key
        attempts := s.attempts.set i { a with withdrawn := true } }

def step (s : Logins) : Step → Option Logins
  | .tick d => some { s with clock := s.clock + d }
  | .attempt key =>
    let ((allowed, _), limiter) := s.limiter.attempt key s.clock
    some { s with
      limiter
      attempts := if allowed then s.attempts ++ [{ key, time := s.clock }] else s.attempts }
  | .forget i => s.withdraw i
  | .cleanup => some { s with limiter := s.limiter.cleanup s.clock }

end Logins

end Dockgraph.Auth
