import Dockgraph.Collector.EventHistory
import Dockgraph.Collector.SwarmSnapshot
import Dockgraph.Library.Keyed

/-!
# DockGraph's own services (`SelfServices` of `collector/swarm_snapshot.go`)

Whether a service is DockGraph itself is asked of the daemon once and remembered.
-/
namespace Dockgraph.Collector

/-- `events.Message`; times are nanoseconds from the epoch, `time` seconds. -/
structure EventMessage where
  type : EventType
  action : String
  actorID : String := ""
  attributes : StringMap := none
  time : Int := 0
  timeNano : Int := 0

/-- What `inspect` answers. -/
inductive Inspected
  | found (svc : Swarm.Service)
  | notFound
  | failed

/-- What a message meets: the clock when it is looked at, and should its service be inspected then,
the answer and the clock after it. -/
structure Arrival where
  msg : EventMessage
  now : Int
  inspected : Inspected
  done : Int

/-- `expires` is `none` for an answer that never does. -/
structure SelfEntry where
  self : Bool := false
  expires : Option Int := none

structure SelfServices where
  known : AList (fun _ : String => SelfEntry) := ∅

def selfRetryAfter : Int := 30 * 10 ^ 9
def selfCacheMax : Nat := 1024

def swarmServiceIDLabel : String := "com.docker.swarm.service.id"

/-- The entry an inspection leaves. -/
def SelfEntry.ofInspected (done : Int) : Inspected → SelfEntry
  | .found svc => { self := isServiceSelfExcluded svc }
  | .notFound => {}
  | .failed => { expires := some (done + selfRetryAfter) }

namespace SelfServices

/-- The remembered answer, unless it has expired. -/
def cached (s : SelfServices) (id : String) (now : Int) : Option Bool := do
  let e ← s.known.lookup id
  if e.expires.all fun expires => now < expires then some e.self else none

def store (s : SelfServices) (id : String) (e : SelfEntry) : SelfServices :=
  { known := (if selfCacheMax ≤ s.known.entries.length then ∅ else s.known).insert id e }

def isSelf (s : SelfServices) (id : String) (a : Arrival) : Bool × SelfServices :=
  if id = "" then (false, s)
  else
    match s.cached id a.now with
    | some self => (self, s)
    | none =>
      let e := SelfEntry.ofInspected a.done a.inspected
      (e.self, s.store id e)

def forget (s : SelfServices) (id : String) : Bool × SelfServices :=
  (((s.known.lookup id).getD {}).self, { known := s.known.erase id })

def isSelfEvent (s : SelfServices) (a : Arrival) : Bool × SelfServices :=
  match a.msg.type with
  | .service => if a.msg.action = "remove" then s.forget a.msg.actorID else s.isSelf a.msg.actorID a
  | .container =>
    let id := a.msg.attributes.get swarmServiceIDLabel
    if id ≠ "" then s.isSelf id a else (false, s)
  | _ => (false, s)

end SelfServices

/-! ## The service of a message -/

/-- The service a message is asked about; the removal of a service is not. -/
def EventMessage.asksOf (msg : EventMessage) : Option String :=
  let id :=
    match msg.type with
    | .service => if msg.action = "remove" then "" else msg.actorID
    | .container => msg.attributes.get swarmServiceIDLabel
    | _ => ""
  if id = "" then none else some id

/-- The service a message says was removed. -/
def EventMessage.removes (msg : EventMessage) : Option String :=
  if msg.type = .service ∧ msg.action = "remove" then some msg.actorID else none

namespace SelfServices

/-- The service a message makes the daemon be asked about. -/
def looksUp (s : SelfServices) (a : Arrival) : Option String :=
  a.msg.asksOf.filter fun id => (s.cached id a.now).isNone

/-- A message asks about a service, tells of a removal, or does neither. -/
theorem isSelfEvent_cases (s : SelfServices) (a : Arrival) :
    (∃ id, a.msg.asksOf = some id ∧ a.msg.removes = none ∧ s.isSelfEvent a = s.isSelf id a) ∨
      (∃ id, a.msg.removes = some id ∧ a.msg.asksOf = none ∧ s.isSelfEvent a = s.forget id) ∨
      (a.msg.asksOf = none ∧ a.msg.removes = none ∧ s.isSelfEvent a = (false, s)) := by
  cases kind : a.msg.type
  case service =>
    by_cases removal : a.msg.action = "remove"
    · right; left
      exact ⟨a.msg.actorID, by simp [EventMessage.removes, kind, removal],
        by simp [EventMessage.asksOf, kind, removal], by simp [isSelfEvent, kind, removal]⟩
    · by_cases blank : a.msg.actorID = ""
      · right; right
        exact ⟨by simp [EventMessage.asksOf, kind, blank], by simp [EventMessage.removes, removal],
          by simp [isSelfEvent, kind, removal, isSelf, blank]⟩
      · left
        exact ⟨a.msg.actorID, by simp [EventMessage.asksOf, kind, removal, blank],
          by simp [EventMessage.removes, removal], by simp [isSelfEvent, kind, removal]⟩
  case container =>
    by_cases blank : a.msg.attributes.get swarmServiceIDLabel = ""
    · right; right
      exact ⟨by simp [EventMessage.asksOf, kind, blank], by simp [EventMessage.removes, kind],
        by simp [isSelfEvent, kind, blank]⟩
    · left
      exact ⟨a.msg.attributes.get swarmServiceIDLabel, by simp [EventMessage.asksOf, kind, blank],
        by simp [EventMessage.removes, kind], by simp [isSelfEvent, kind, blank]⟩
  all_goals
    right; right
    exact ⟨by simp [EventMessage.asksOf, kind], by simp [EventMessage.removes, kind],
      by simp [isSelfEvent, kind]⟩

theorem asksOf_ne {msg : EventMessage} {id : String} (asks : msg.asksOf = some id) : id ≠ "" := by
  simp only [EventMessage.asksOf, Option.ite_none_left_eq_some, Option.some.injEq] at asks
  exact fun blank => asks.1 (asks.2.trans blank)

theorem isSelfEvent_asks {s : SelfServices} {a : Arrival} {id : String} (asks : a.msg.asksOf = some id) :
    s.isSelfEvent a = s.isSelf id a := by
  rcases isSelfEvent_cases s a with ⟨j, asked, _, same⟩ | ⟨_, _, unasked, _⟩ | ⟨unasked, _⟩
  · rwa [Option.some.inj (asks.symm.trans asked)]
  · rw [asks] at unasked
    cases unasked
  · rw [asks] at unasked
    cases unasked

theorem isSelfEvent_removes {s : SelfServices} {a : Arrival} {id : String} (gone : a.msg.removes = some id) :
    s.isSelfEvent a = s.forget id := by
  rcases isSelfEvent_cases s a with ⟨_, _, stays, _⟩ | ⟨j, removed, _, same⟩ | ⟨_, stays, _⟩
  · rw [gone] at stays
    cases stays
  · rwa [Option.some.inj (gone.symm.trans removed)]
  · rw [gone] at stays
    cases stays

/-! ## What is remembered -/

/-- A good answer is given again; without one the service is inspected. -/
theorem isSelf_cases (s : SelfServices) {id : String} (named : id ≠ "") (a : Arrival) :
    (∃ e, s.known.lookup id = some e ∧ (∀ expires ∈ e.expires, a.now < expires) ∧
        s.cached id a.now = some e.self ∧ s.isSelf id a = (e.self, s)) ∨
      (s.cached id a.now = none ∧
        s.isSelf id a = ((SelfEntry.ofInspected a.done a.inspected).self,
          s.store id (SelfEntry.ofInspected a.done a.inspected))) := by
  cases answer : s.cached id a.now with
  | none => exact .inr ⟨rfl, by simp [isSelf, named, answer]⟩
  | some self =>
    left
    have entry := answer
    simp only [cached, Option.bind_eq_bind, Option.bind_eq_some_iff, Option.ite_none_right_eq_some,
      Option.some.injEq, Option.all_eq_true, decide_eq_true_eq] at entry
    obtain ⟨e, found, good, rfl⟩ := entry
    exact ⟨e, found, fun expires member => good expires member, rfl, by simp [isSelf, named, answer]⟩

theorem isSelf_iff (s : SelfServices) {id : String} (named : id ≠ "") (a : Arrival) :
    (s.isSelf id a).1 = true ↔ s.cached id a.now = some true ∨
      s.cached id a.now = none ∧ ∃ svc, a.inspected = .found svc ∧ isServiceSelfExcluded svc = true := by
  rcases isSelf_cases s named a with ⟨e, _, _, good, answer⟩ | ⟨missing, answer⟩
  · simp [answer, good]
  · rw [answer, missing]
    cases a.inspected <;> simp [SelfEntry.ofInspected]

theorem forget_iff (s : SelfServices) (id : String) :
    (s.forget id).1 = true ↔ ∃ e, s.known.lookup id = some e ∧ e.self = true := by
  cases entry : s.known.lookup id <;> simp [forget, entry]

theorem lookup_store {s : SelfServices} {id j : String} {e found : SelfEntry}
    (here : (s.store id e).known.lookup j = some found) :
    j = id ∧ found = e ∨ s.known.lookup j = some found := by
  simp only [store] at here
  by_cases same : j = id
  · subst same
    rw [AList.lookup_insert, Option.some.injEq] at here
    exact .inl ⟨rfl, here.symm⟩
  · rw [AList.lookup_insert_ne same] at here
    split at here
    · simp at here
    · exact .inr here

theorem lookup_forget {s : SelfServices} {id j : String} {found : SelfEntry}
    (here : (s.forget id).2.known.lookup j = some found) : s.known.lookup j = some found := by
  simp only [forget] at here
  by_cases same : j = id
  · subst same
    simp at here
  · rwa [AList.lookup_erase_ne same] at here

/-- The cache starts over before it holds more than its bound. -/
theorem length_store (s : SelfServices) (id : String) (e : SelfEntry) :
    (s.store id e).known.entries.length ≤ selfCacheMax := by
  have grows (m : AList fun _ : String => SelfEntry) :
      (m.insert id e).entries.length ≤ m.entries.length + 1 := by
    rw [AList.entries_insert, List.length_cons]
    exact Nat.succ_le_succ (List.kerase_sublist _ _).length_le
  simp only [store]
  split
  · exact (grows ∅).trans (by decide)
  · exact (grows _).trans (by omega)

theorem length_forget (s : SelfServices) (id : String) (size : s.known.entries.length ≤ selfCacheMax) :
    (s.forget id).2.known.entries.length ≤ selfCacheMax :=
  (List.kerase_sublist _ _).length_le.trans size

end SelfServices

end Dockgraph.Collector
