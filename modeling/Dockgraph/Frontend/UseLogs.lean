import Mathlib.Data.List.DropRight
import Mathlib.Order.Lattice

/-!
# The log viewer (`hooks/useLogs.ts`)

One viewer, from its initial history request on, and the log it reads. The server answers a history
request at one moment and the viewer takes the answer up at a later one. A callback sees the state
of the last render, the refs as they are.
-/
namespace Dockgraph.Frontend

variable {τ : Type}

inductive LogStream
  | stdout
  | stderr
  deriving DecidableEq

/-- A line without the key it is rendered with. -/
structure LogLine (τ : Type) where
  stream : LogStream := .stdout
  text : String
  timestamp : Option τ
  container : Option String := none
  deriving DecidableEq

structure LogsConfig (τ : Type) where
  pageSize : Nat := 200
  /-- By default `LOG_BUFFER_SIZE`. -/
  bufferSize : Nat := 2000
  /-- `streamUrl` is given. -/
  streams : Bool := true
  dedupeKey : Option (LogLine τ → String) := none

/-- What a history request asks for. -/
inductive Query (τ : Type)
  | initial
  | older (oldest : τ)
  | newer

/-- A history request under way, with the answer once the server has made it. -/
structure HistoryRequest (τ : Type) where
  query : Query τ
  fetched : Option (List (LogLine τ)) := none

structure EventSource (τ : Type) where
  /-- The URL's `since`. -/
  since : Option τ
  /-- While connected, how much of the log the server has sent. -/
  position : Option Nat := none
  batch : List (LogLine τ) := []
  /-- History: how many lines were received. -/
  received : Nat := 0

/-- The React state that callbacks read. -/
structure Flags where
  loadingMore : Bool := false
  hasMore : Bool := true
  loadingNewer : Bool := false

/-- The refs and the state of the hook, and the server's log. -/
structure Logs (τ : Type) where
  log : List (LogLine τ)
  lines : List (LogLine τ) := []
  source : Option (EventSource τ) := none
  detached : Bool := false
  following : Bool := true
  flags : Flags := {}
  /-- The state as of the last render. -/
  rendered : Flags := {}
  requests : List (HistoryRequest τ) := [{ query := .initial }]

namespace Logs

def openSSE (v : Logs τ) (since : Option τ) : Logs τ := { v with source := some { since } }

/-- What a new batch of lines does to the buffer. -/
def flush (cfg : LogsConfig τ) (v : Logs τ) : Logs τ :=
  match v.source with
  | none => v
  | some s =>
    if s.batch.length = 0 then v
    else
      let v := { v with source := some { s with batch := [] } }
      -- a detached buffer drops what the stream brings
      if v.detached then v
      else if ¬v.following ∧ v.lines.length + s.batch.length > cfg.bufferSize then
        { v with detached := true }
      else
        -- the oldest lines give way
        let buf := v.lines ++ s.batch
        { v with
          lines := if buf.length > cfg.bufferSize then buf.drop (buf.length - cfg.bufferSize) else buf }

def showLatest (cfg : LogsConfig τ) (v : Logs τ) (fetched : List (LogLine τ)) : Logs τ :=
  let v := { v with
    lines := fetched
    -- the hook takes any line for a sign of older ones
    flags := { v.flags with hasMore := fetched.length > 0 }
    detached := false }
  if cfg.streams then v.openSSE (fetched.getLast?.bind LogLine.timestamp) else v

def loadMore (v : Logs τ) : Logs τ :=
  if v.rendered.loadingMore ∨ ¬v.rendered.hasMore then v
  else
    -- without a first timestamp there is no cursor
    match v.lines.head?.bind LogLine.timestamp with
    | none => { v with flags := { v.flags with hasMore := false } }
    | some oldest =>
      { v with
        flags := { v.flags with loadingMore := true }
        requests := v.requests ++ [{ query := .older oldest }] }

/-- The lines of a page that are older than the cursor. -/
def olderLines [LinearOrder τ] (oldest : τ) (fetched : List (LogLine τ)) : List (LogLine τ) :=
  fetched.filter fun l => l.timestamp.all fun t => t < oldest

/-- The lines whose key no line of the buffer has, when there is a key. -/
def newLines (cfg : LogsConfig τ) (v : Logs τ) (older : List (LogLine τ)) : List (LogLine τ) :=
  match cfg.dedupeKey with
  | none => older
  | some key => older.filter fun l => key l ∉ v.lines.map key

/-- An older page goes in front of the buffer. -/
def showOlder [LinearOrder τ] (cfg : LogsConfig τ) (v : Logs τ) (oldest : τ)
    (fetched : List (LogLine τ)) : Logs τ :=
  let ended := { v with flags := { v.flags with hasMore := false, loadingMore := false } }
  let older := olderLines oldest fetched
  -- a page that brings nothing new ends the log
  if older.length = 0 then ended
  else
    let older := v.newLines cfg older
    if older.length = 0 then ended
    else
      let v := { v with flags := { v.flags with hasMore := true, loadingMore := false } }
      let lines := older ++ v.lines
      -- the newest lines give way, so the buffer ends before the stream
      if lines.length > cfg.bufferSize then
        { v with lines := lines.take cfg.bufferSize, detached := true }
      else { v with lines }

/-- A request for the newest page aborts the one before. -/
def loadNewer (v : Logs τ) : Logs τ :=
  if v.rendered.loadingNewer ∨ ¬v.detached then v
  else
    { v with
      flags := { v.flags with loadingNewer := true }
      requests := (v.requests.filter fun r => r.query matches .initial | .older _) ++ [{ query := .newer }] }

/-! ## Steps -/

inductive Step (τ : Type)
  /-- The program logs a line. -/
  | log (l : LogLine τ)
  | render
  | follow (following : Bool)
  | loadMore
  | loadNewer
  /-- The server answers a request with so many lines. -/
  | serve (i n : Nat)
  | respond (i : Nat)
  | fail (i : Nat)
  /-- The event source connects; without a `since` the server chooses where to start. -/
  | connect (n : Nat)
  | disconnect
  | message
  | flush

variable [LinearOrder τ]

/-- The newest lines, or the newest older than the cursor. -/
def page (log : List (LogLine τ)) (query : Query τ) (n : Nat) : List (LogLine τ) :=
  match query with
  | .older oldest => (log.filter fun l => l.timestamp.any fun t => t < oldest).rtake n
  | .initial | .newer => log.rtake n

/-- Where a stream starts in the log: right after `since`. -/
def startAt (log : List (LogLine τ)) (since : Option τ) (n : Nat) : Nat :=
  match since with
  | some t => (log.takeWhile fun l => l.timestamp.all fun s => s ≤ t).length
  | none => min n log.length

/-- The line is stamped later than the log. -/
def later (log : List (LogLine τ)) (l : LogLine τ) : Bool :=
  l.timestamp.any fun t => log.all fun k => k.timestamp.any fun s => s < t

def serve (cfg : LogsConfig τ) (v : Logs τ) (i n : Nat) : Option (Logs τ) :=
  match v.requests[i]? with
  | some ⟨query, none⟩ =>
    if n ≤ cfg.pageSize then
      some { v with requests := v.requests.set i ⟨query, some (page v.log query n)⟩ }
    else none
  | _ => none

def respond (cfg : LogsConfig τ) (v : Logs τ) (i : Nat) : Option (Logs τ) :=
  match v.requests[i]? with
  | some ⟨query, some fetched⟩ =>
    let v := { v with requests := v.requests.eraseIdx i }
    match query with
    | .initial => some (v.showLatest cfg fetched)
    | .older oldest => some (v.showOlder cfg oldest fetched)
    | .newer =>
      -- the old stream is closed before the new one opens
      let v := { v with source := none }.showLatest cfg fetched
      some { v with flags := { v.flags with loadingNewer := false } }
  | _ => none

def fail (cfg : LogsConfig τ) (v : Logs τ) (i : Nat) : Option (Logs τ) :=
  match v.requests[i]? with
  | none => none
  | some r =>
    let v := { v with requests := v.requests.eraseIdx i }
    match r.query with
    -- without history, the stream starts where the server chooses
    | .initial => some (if cfg.streams then v.openSSE none else v)
    | .older _ => some { v with flags := { v.flags with loadingMore := false } }
    | .newer => some { v with flags := { v.flags with loadingNewer := false } }

def connect (v : Logs τ) (n : Nat) : Option (Logs τ) :=
  match v.source with
  | some ⟨since, none, batch, received⟩ =>
    some { v with source := some ⟨since, some (startAt v.log since n), batch, received⟩ }
  | _ => none

def message (v : Logs τ) : Option (Logs τ) :=
  match v.source with
  | some ⟨since, some position, batch, received⟩ =>
    match v.log[position]? with
    | none => none
    | some l =>
      some { v with source := some ⟨since, some (position + 1), batch ++ [l], received + 1⟩ }
  | _ => none

def step (cfg : LogsConfig τ) (v : Logs τ) : Step τ → Option (Logs τ)
  -- timestamps increase
  | .log l => if later v.log l then some { v with log := v.log ++ [l] } else none
  | .render => some { v with rendered := v.flags }
  | .follow following => some { v with following }
  | .loadMore => some v.loadMore
  | .loadNewer => some v.loadNewer
  | .serve i n => v.serve cfg i n
  | .respond i => v.respond cfg i
  | .fail i => v.fail cfg i
  | .connect n => v.connect n
  | .disconnect => some { v with source := v.source.map fun s => { s with position := none } }
  | .message => v.message
  | .flush => some (v.flush cfg)

end Logs

end Dockgraph.Frontend
