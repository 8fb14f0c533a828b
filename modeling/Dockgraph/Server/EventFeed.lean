import Dockgraph.Collector.SelfServices

/-!
# From Docker's events to the dashboard (`pipeEvents` of `main.go`, `api/events.go`)

The events that are no noise and not DockGraph's own are recorded in the history, which answers
with the newest of them.
-/
namespace Dockgraph.Server

open Collector

/-! ## The feed -/

/-- Exec and health check events, and those of DockGraph's own container. -/
def isNoise (msg : EventMessage) : Bool :=
  "exec_".toList.isPrefixOf msg.action.toList || "health_status".toList.isPrefixOf msg.action.toList ||
    isSelfExcluded msg.attributes

/-- The event `pipeEvents` adds to the history. -/
def historyEvent (msg : EventMessage) : DockerEvent :=
  let name := msg.attributes.get "name"
  { timestamp := if msg.timeNano = 0 then msg.time * 10 ^ 9 else msg.timeNano
    action := msg.action
    type := msg.type
    name := if name = "" then msg.actorID else name
    attributes := msg.attributes }

/-- `selfServices` is `none` outside swarm mode. -/
structure EventFeed where
  selfServices : Option SelfServices := none
  history : EventHistory 500 := newEventHistory 500 (by decide)

def newEventFeed (swarmMode : Bool) : EventFeed :=
  { selfServices := if swarmMode then some {} else none }

/-- Whether a message is recorded, and the remembered services after it. -/
def admits (s : Option SelfServices) (a : Arrival) : Bool × Option SelfServices :=
  if isNoise a.msg then (false, s)
  else
    match s with
    | none => (true, none)
    | some s =>
      let (self, s) := s.isSelfEvent a
      (!self, some s)

/-- One round of the loop of `pipeEvents`. -/
def EventFeed.receive (f : EventFeed) (a : Arrival) : EventFeed :=
  let (admitted, s) := admits f.selfServices a
  { selfServices := s
    history := if admitted then f.history.add (historyEvent a.msg) else f.history }

/-- `HandleRecentEvents`. -/
def EventFeed.recentEvents (f : EventFeed) (q : Option String) : List DockerEvent :=
  f.history.recent (recentLimit q)

/-- The services remembered after a run. -/
def remembered (as : List Arrival) : SelfServices :=
  as.foldl (fun s a => ((admits (some s) a).2).getD s) {}

theorem remembered_concat (as : List Arrival) (a : Arrival) :
    remembered (as ++ [a]) = ((admits (some (remembered as)) a).2).getD (remembered as) := by
  simp [remembered, List.foldl_append]

theorem selfServices_run (as : List Arrival) :
    (as.foldl EventFeed.receive (newEventFeed true)).selfServices = some (remembered as) := by
  induction as using List.reverseRecOn with
  | nil => rfl
  | append_singleton as a ih =>
    rw [List.foldl_append, List.foldl_cons, List.foldl_nil, remembered_concat]
    simp only [EventFeed.receive, ih, admits]
    split <;> rfl

theorem selfServices_run_plain (as : List Arrival) :
    (as.foldl EventFeed.receive (newEventFeed false)).selfServices = none := by
  induction as using List.reverseRecOn with
  | nil => rfl
  | append_singleton as a ih =>
    rw [List.foldl_append, List.foldl_cons, List.foldl_nil]
    simp only [EventFeed.receive, ih, admits]
    split <;> rfl

/-! ## What is not recorded -/

/-- A message of an exec, of a health check, or of DockGraph's own container. -/
inductive Noise (msg : EventMessage) : Prop
  | exec (command : String) (named : msg.action = "exec_" ++ command)
  | health (status : String) (named : msg.action = "health_status" ++ status)
  | own (labelled : msg.attributes.get selfExcludeLabel = "true")

/-- A message of a service of DockGraph's own, on the word of a look-up: an earlier one that is
remembered, or the one the message leads to. -/
inductive OfOwnService (before : List Arrival) (a : Arrival) : Prop
  | known (id : String) (asks : a.msg.asksOf = some id)
      (good : (remembered before).cached id a.now = some true)
  | found (id : String) (svc : Swarm.Service) (asked : (remembered before).looksUp a = some id)
      (answer : a.inspected = .found svc) (own : isServiceSelfExcluded svc = true)
  | removed (id : String) (e : SelfEntry) (gone : a.msg.removes = some id)
      (entry : (remembered before).known.lookup id = some e) (own : e.self = true)

theorem isPrefixOf_iff_append (front s : String) :
    front.toList.isPrefixOf s.toList = true ↔ ∃ rest, s = front ++ rest := by
  rw [List.isPrefixOf_iff_prefix]
  constructor
  · rintro ⟨rest, whole⟩
    exact ⟨.ofList rest, String.toList_inj.mp (by simp [whole])⟩
  · rintro ⟨rest, rfl⟩
    exact ⟨rest.toList, by simp⟩

theorem isNoise_iff (msg : EventMessage) : isNoise msg = true ↔ Noise msg := by
  simp only [isNoise, Bool.or_eq_true, isPrefixOf_iff_append, isSelfExcluded, decide_eq_true_eq]
  constructor
  · rintro ((⟨command, named⟩ | ⟨status, named⟩) | labelled)
    · exact .exec command named
    · exact .health status named
    · exact .own labelled
  · rintro (⟨command, named⟩ | ⟨status, named⟩ | labelled)
    · exact .inl (.inl ⟨command, named⟩)
    · exact .inl (.inr ⟨status, named⟩)
    · exact .inr labelled

theorem isSelfEvent_iff (before : List Arrival) (a : Arrival) :
    ((remembered before).isSelfEvent a).1 = true ↔ OfOwnService before a := by
  constructor
  · intro self
    -- a message is asked about, tells of a removal, or is of no service
    rcases SelfServices.isSelfEvent_cases (remembered before) a with
      ⟨id, asks, _, same⟩ | ⟨id, gone, _, same⟩ | ⟨_, _, same⟩
    · rw [same] at self
      rcases (SelfServices.isSelf_iff _ (SelfServices.asksOf_ne asks) a).mp self with good | ⟨missing, svc, answer, own⟩
      · exact .known id asks good
      · exact .found id svc (by simp [SelfServices.looksUp, asks, missing]) answer own
    · rw [same] at self
      obtain ⟨e, entry, own⟩ := (SelfServices.forget_iff _ id).mp self
      exact .removed id e gone entry own
    · rw [same] at self
      cases self
  · rintro (⟨id, asks, good⟩ | ⟨id, svc, asked, answer, own⟩ | ⟨id, e, gone, entry, own⟩)
    · rw [SelfServices.isSelfEvent_asks asks]
      exact (SelfServices.isSelf_iff _ (SelfServices.asksOf_ne asks) a).mpr (.inl good)
    · obtain ⟨asks, missing⟩ : a.msg.asksOf = some id ∧ (remembered before).cached id a.now = none := by
        simpa [SelfServices.looksUp, Option.filter_eq_some_iff] using asked
      rw [SelfServices.isSelfEvent_asks asks]
      exact (SelfServices.isSelf_iff _ (SelfServices.asksOf_ne asks) a).mpr (.inr ⟨missing, svc, answer, own⟩)
    · rw [SelfServices.isSelfEvent_removes gone]
      exact (SelfServices.forget_iff _ id).mpr ⟨e, entry, own⟩

/-- What stays out of the history after the arrivals before. -/
def Dropped (swarmMode : Bool) (before : List Arrival) (a : Arrival) : Prop :=
  Noise a.msg ∨ swarmMode = true ∧ OfOwnService before a

/-- The messages of a run that are not dropped, oldest first. -/
inductive Recorded (swarmMode : Bool) : List Arrival → List EventMessage → Prop
  | start : Recorded swarmMode [] []
  | drop {as : List Arrival} {msgs : List EventMessage} {a : Arrival} (earlier : Recorded swarmMode as msgs)
      (dropped : Dropped swarmMode as a) : Recorded swarmMode (as ++ [a]) msgs
  | keep {as : List Arrival} {msgs : List EventMessage} {a : Arrival} (earlier : Recorded swarmMode as msgs)
      (passes : ¬Dropped swarmMode as a) : Recorded swarmMode (as ++ [a]) (msgs ++ [a.msg])

theorem admits_iff (swarmMode : Bool) (as : List Arrival) (a : Arrival) :
    (admits (as.foldl EventFeed.receive (newEventFeed swarmMode)).selfServices a).1 = true ↔
      ¬Dropped swarmMode as a := by
  rw [Dropped, not_or, ← isNoise_iff]
  cases swarmMode with
  | false =>
    rw [selfServices_run_plain, admits]
    split <;> simp [*]
  | true =>
    rw [selfServices_run, admits, ← isSelfEvent_iff]
    split <;> simp [*]

/-! ## What the dashboard is answered -/

/-- The longest run of whole characters at the front of `s` that fits in `limit` bytes. -/
structure CutTo (limit : Nat) (s cut : String) : Prop where
  front : cut.toList <+: s.toList
  fits : (Utf8.bytes cut.toList).length ≤ limit
  longest : ∀ other, other <+: s.toList → (Utf8.bytes other).length ≤ limit → other <+: cut.toList

/-- What the dashboard is told of a message. -/
structure Tells (msg : EventMessage) (e : DockerEvent) : Prop where
  timestamp : e.timestamp = if msg.timeNano = 0 then msg.time * 10 ^ 9 else msg.timeNano
  action : e.action = msg.action
  type : e.type = msg.type
  name : CutTo maxNameBytes (if msg.attributes.get "name" = "" then msg.actorID else msg.attributes.get "name") e.name
  kept : ∀ k v, e.attributes.entries.lookup k = some v ↔
    k ∈ eventAttributes ∧
      ∃ value cut, msg.attributes.entries.lookup k = some value ∧ CutTo maxNameBytes value cut ∧ v = maskEnvValue k cut

theorem cutTo_capText (limit : Nat) (s : String) : CutTo limit s (capText s limit) where
  front := by simpa [capText] using Utf8.fit_isPrefix limit s.toList
  fits := by simpa [capText] using Utf8.length_bytes_fit_le limit s.toList
  longest other front fits := by simpa [capText] using Utf8.isPrefix_fit front fits

theorem CutTo.unique {limit : Nat} {s cut other : String} (one : CutTo limit s cut) (two : CutTo limit s other) :
    cut = other := by
  have forth := two.longest cut.toList one.front one.fits
  have back := one.longest other.toList two.front two.fits
  exact String.toList_inj.mp (forth.eq_of_length_le back.length_le)

theorem tells_storedEvent (msg : EventMessage) : Tells msg (storedEvent (historyEvent msg)) where
  timestamp := rfl
  action := rfl
  type := rfl
  name := cutTo_capText _ _
  kept k v := by
    change (keptAttributes msg.attributes).entries.lookup k = some v ↔ _
    rw [lookup_keptAttributes]
    simp only [Option.ite_none_right_eq_some, Option.map_eq_some_iff]
    apply and_congr_right
    intro _
    constructor
    · rintro ⟨value, entry, rfl⟩
      exact ⟨value, capText value maxNameBytes, entry, cutTo_capText _ _, rfl⟩
    · rintro ⟨value, cut, entry, fits, rfl⟩
      exact ⟨value, entry, by rw [fits.unique (cutTo_capText _ _)]⟩

theorem recentLimit_le (q : Option String) : recentLimit q ≤ 500 := by
  unfold recentLimit
  split
  · split <;> omega
  · omega

/-- The history holds the newest of the recorded messages. -/
theorem history_run (swarmMode : Bool) (as : List Arrival) :
    ∃ msgs, Recorded swarmMode as msgs ∧
      (as.foldl EventFeed.receive (newEventFeed swarmMode)).history.entries =
        (msgs.reverse.map fun msg => storedEvent (historyEvent msg)).take 500 := by
  -- by arrivals: the ring takes the ones that pass, each over the oldest of 500
  induction as using List.reverseRecOn with
  | nil => exact ⟨[], .start, Ring.entries_empty _ _⟩
  | append_singleton as a ih =>
    obtain ⟨msgs, earlier, holds⟩ := ih
    have decides := admits_iff swarmMode as a
    rw [List.foldl_append, List.foldl_cons, List.foldl_nil]
    simp only [EventFeed.receive]
    split
    case isTrue admitted =>
      refine ⟨msgs ++ [a.msg], .keep earlier (decides.mp admitted), ?_⟩
      rw [EventHistory.add, Ring.entries_push, holds]
      simp [List.take_take, List.take_succ_cons]
    case isFalse refused =>
      exact ⟨msgs, .drop earlier (not_not.mp (mt decides.mpr refused)), holds⟩

/-- Whenever the dashboard asks, it is answered with the newest recorded events, newest first, as
many as it asked for: nothing recorded is out of order, twice, or missing among them. Each tells of
its message with the name and the listed attributes cut to their bound and the attributes masked. -/
theorem recentEvents_run (swarmMode : Bool) (as : List Arrival) (q : Option String) :
    ∃ msgs, Recorded swarmMode as msgs ∧
      List.Forall₂ Tells (msgs.reverse.take (recentLimit q))
        ((as.foldl EventFeed.receive (newEventFeed swarmMode)).recentEvents q) := by
  obtain ⟨msgs, recorded, holds⟩ := history_run swarmMode as
  refine ⟨msgs, recorded, ?_⟩
  rw [EventFeed.recentEvents, EventHistory.recent, Ring.newest_eq_take, holds, List.take_take,
    Nat.min_eq_left (recentLimit_le q), ← List.map_take, List.forall₂_map_right_iff, List.forall₂_same]
  intro msg _
  exact tells_storedEvent msg

/-! ## DockGraph's own services -/

/-- A look-up of `id` in the run failed, and its answer is good until `expires`. -/
def FailedLookUp (as : List Arrival) (id : String) (expires : Option Int) : Prop :=
  ∃ before a later, as = before ++ a :: later ∧ (remembered before).looksUp a = some id ∧
    (a.inspected = .notFound ∧ expires = none ∨ a.inspected = .failed ∧ expires = some (a.done + selfRetryAfter))

section Own

-- whether a service is DockGraph itself
variable (truth : String → Bool)

/-- An inspection that finds the service tells the truth, and takes no negative time. -/
structure Honest (a : Arrival) : Prop where
  found : ∀ svc id, a.inspected = .found svc → a.msg.asksOf = some id → isServiceSelfExcluded svc = truth id
  clock : a.now ≤ a.done

/-- What is remembered is true, or was remembered because a look-up failed. -/
structure Sound (as : List Arrival) (s : SelfServices) : Prop where
  size : s.known.entries.length ≤ selfCacheMax
  entry : ∀ id e, s.known.lookup id = some e →
    e.self = truth id ∧ e.expires = none ∨ e.self = false ∧ FailedLookUp as id e.expires

variable {truth} {as : List Arrival} {a : Arrival}

theorem FailedLookUp.append {id : String} {expires : Option Int} (failed : FailedLookUp as id expires)
    (more : List Arrival) : FailedLookUp (as ++ more) id expires := by
  obtain ⟨before, a, later, rfl, asked, answer⟩ := failed
  exact ⟨before, a, later ++ more, by simp, asked, answer⟩

/-- The entry a look-up leaves is true, or says that it failed. -/
theorem ofInspected_sound {id : String} (honest : Honest truth a) (asks : a.msg.asksOf = some id)
    (missing : (remembered as).cached id a.now = none) :
    (SelfEntry.ofInspected a.done a.inspected).self = truth id ∧
        (SelfEntry.ofInspected a.done a.inspected).expires = none ∨
      (SelfEntry.ofInspected a.done a.inspected).self = false ∧
        FailedLookUp (as ++ [a]) id (SelfEntry.ofInspected a.done a.inspected).expires := by
  have asked : (remembered as).looksUp a = some id := by
    simp [SelfServices.looksUp, asks, missing]
  cases answer : a.inspected with
  | found svc => exact .inl ⟨honest.found svc id answer asks, rfl⟩
  | notFound => exact .inr ⟨rfl, as, a, [], rfl, asked, .inl ⟨answer, rfl⟩⟩
  | failed => exact .inr ⟨rfl, as, a, [], rfl, asked, .inr ⟨answer, rfl⟩⟩

theorem Sound.isSelf {id : String} (sound : Sound truth as (remembered as)) (honest : Honest truth a)
    (asks : a.msg.asksOf = some id) : Sound truth (as ++ [a]) ((remembered as).isSelf id a).2 := by
  rcases SelfServices.isSelf_cases (remembered as) (SelfServices.asksOf_ne asks) a with
    ⟨e, _, _, _, same⟩ | ⟨missing, asked⟩
  · rw [same]
    exact ⟨sound.size, fun j f here => (sound.entry j f here).imp_right fun h => ⟨h.1, h.2.append _⟩⟩
  · rw [asked]
    refine ⟨SelfServices.length_store .., fun j f here => ?_⟩
    rcases SelfServices.lookup_store here with ⟨rfl, rfl⟩ | older
    · exact ofInspected_sound honest asks missing
    · exact (sound.entry j f older).imp_right fun h => ⟨h.1, h.2.append _⟩

/-- A message keeps what is remembered sound. -/
theorem Sound.concat (sound : Sound truth as (remembered as)) (honest : Honest truth a) :
    Sound truth (as ++ [a]) (remembered (as ++ [a])) := by
  have kept : Sound truth (as ++ [a]) (remembered as) :=
    ⟨sound.size, fun j f here => (sound.entry j f here).imp_right fun h => ⟨h.1, h.2.append _⟩⟩
  rw [remembered_concat, admits]
  split
  · exact kept
  simp only [Option.getD_some]
  rcases SelfServices.isSelfEvent_cases (remembered as) a with
    ⟨id, asks, _, same⟩ | ⟨id, _, _, same⟩ | ⟨_, _, same⟩
  · rw [same]
    exact sound.isSelf honest asks
  · rw [same]
    exact ⟨SelfServices.length_forget _ id sound.size,
      fun j f here => kept.entry j f (SelfServices.lookup_forget here)⟩
  · rw [same]
    exact kept

theorem sound_run (honest : ∀ x ∈ as, Honest truth x) : Sound truth as (remembered as) := by
  induction as using List.reverseRecOn with
  | nil => exact ⟨Nat.zero_le _, by simp [remembered]⟩
  | append_singleton as a ih =>
    exact (ih fun x member => honest x (by simp [member])).concat (honest a (by simp))

/-- The answer given for a message's service is true, or a failed look-up still stands for it. -/
theorem Sound.answer {id : String} (sound : Sound truth as (remembered as)) (honest : Honest truth a)
    (asks : a.msg.asksOf = some id) :
    ((remembered as).isSelf id a).1 = truth id ∨ ((remembered as).isSelf id a).1 = false ∧
      ∃ expires, FailedLookUp (as ++ [a]) id expires ∧ ∀ t ∈ expires, a.now < t := by
  rcases SelfServices.isSelf_cases (remembered as) (SelfServices.asksOf_ne asks) a with
    ⟨e, found, good, _, same⟩ | ⟨missing, asked⟩
  · rw [same]
    exact (sound.entry id e found).imp And.left fun h => ⟨h.1, e.expires, h.2.append _, good⟩
  · rw [asked]
    refine (ofInspected_sound honest asks missing).imp And.left fun h => ⟨h.1, _, h.2, ?_⟩
    intro t member
    have clock := honest.clock
    cases answer : a.inspected with
    | found svc => simp [SelfEntry.ofInspected, answer] at member
    | notFound => simp [SelfEntry.ofInspected, answer] at member
    | failed =>
      simp only [SelfEntry.ofInspected, answer, selfRetryAfter, Option.mem_some_iff] at member
      omega

theorem admits_asks {s : SelfServices} {id : String} (asks : a.msg.asksOf = some id) :
    (admits (some s) a).1 = (!isNoise a.msg && !(s.isSelf id a).1) := by
  have event : s.isSelfEvent a = s.isSelf id a := SelfServices.isSelfEvent_asks asks
  unfold admits
  split
  case isTrue noise => simp [noise]
  case isFalse quiet => simp [quiet, event]

theorem admits_removes {s : SelfServices} {id : String} (gone : a.msg.removes = some id) :
    (admits (some s) a).1 = (!isNoise a.msg && !((s.known.lookup id).getD {}).self) := by
  have event : s.isSelfEvent a = s.forget id := SelfServices.isSelfEvent_removes gone
  unfold admits
  split
  case isTrue noise => simp [noise]
  case isFalse quiet => simp [quiet, event, SelfServices.forget]

/-- Only a service of DockGraph's own is remembered as one. -/
theorem Sound.removal (sound : Sound truth as (remembered as)) (id : String) :
    (((remembered as).known.lookup id).getD {}).self = true ∧ truth id = true ∨
      (((remembered as).known.lookup id).getD {}).self = false ∧
        (truth id = true → ∀ e, (remembered as).known.lookup id = some e → FailedLookUp as id e.expires) := by
  cases entry : (remembered as).known.lookup id with
  | none => exact .inr ⟨rfl, fun _ e here => nomatch here⟩
  | some e =>
    rcases sound.entry id e entry with ⟨same, _⟩ | ⟨other, failed⟩
    · cases own : truth id with
      | true => exact .inl ⟨same.trans own, rfl⟩
      | false => exact .inr ⟨same.trans own, fun contrary => nomatch contrary⟩
    · exact .inr ⟨other, fun _ f here => Option.some.inj here ▸ failed⟩

/-- In swarm mode an event of a service that is not DockGraph's is recorded unless it is noise. One
of DockGraph's own that is looked up is recorded only on the word of a look-up that failed: the
daemon did not know the service, which is never asked again, or could not be asked less than
`selfRetryAfter` ago. The removal of one leads to no look-up: it is recorded only when no look-up
of the service is remembered, or one that failed. -/
theorem admits_own {id : String} (honest : ∀ x ∈ as ++ [a], Honest truth x) :
    let f := as.foldl EventFeed.receive (newEventFeed true)
    (truth id = false → a.msg.asksOf = some id ∨ a.msg.removes = some id →
        (admits f.selfServices a).1 = !isNoise a.msg) ∧
      (truth id = true → (admits f.selfServices a).1 = true →
        (a.msg.asksOf = some id → ∃ expires, FailedLookUp (as ++ [a]) id expires ∧ ∀ t ∈ expires, a.now < t) ∧
          (a.msg.removes = some id →
            ∀ e, (remembered as).known.lookup id = some e → FailedLookUp as id e.expires)) ∧
      (remembered (as ++ [a])).known.entries.length ≤ selfCacheMax := by
  intro f
  have sound : Sound truth as (remembered as) := sound_run fun x member => honest x (by simp [member])
  have last : Honest truth a := honest a (by simp)
  rw [show f.selfServices = some (remembered as) from selfServices_run as]
  refine ⟨?other, ?own, (sound.concat last).size⟩
  case other =>
    rintro other (asks | gone)
    · rw [admits_asks asks]
      rcases sound.answer last asks with same | ⟨same, _⟩ <;> simp [same, other]
    · rw [admits_removes gone]
      rcases sound.removal id with ⟨_, own⟩ | ⟨same, _⟩
      · rw [other] at own
        cases own
      · simp [same]
  case own =>
    -- what is remembered is true, so only the word of a failed look-up lets it pass
    intro own admitted
    constructor
    · intro asks
      rw [admits_asks asks] at admitted
      rcases sound.answer last asks with same | ⟨_, failed⟩
      · simp [same, own] at admitted
      · exact failed
    · intro gone
      rw [admits_removes gone] at admitted
      rcases sound.removal id with ⟨same, _⟩ | ⟨_, failed⟩
      · simp [same] at admitted
      · exact failed own

/-- A message of service `id` at a second, and what the daemon would answer of the service. -/
def serviceEvent (id action : String) (second : Int) (inspected : Inspected) : Arrival :=
  { msg := { type := .service, action := action, actorID := id, time := second }
    now := second * 10 ^ 9, inspected := inspected, done := second * 10 ^ 9 }

/-- DockGraph's service is updated and removed; a late update of it finds the daemon busy. -/
def ownRemoved : List Arrival :=
  [serviceEvent "own" "update" 0
      (.found { id := "own", name := "dockgraph", labels := some (Finmap.singleton selfExcludeLabel "true") }),
    serviceEvent "own" "remove" 5 .notFound, serviceEvent "own" "update" 6 .failed]

theorem admits_own_removed :
    (∃ expires, FailedLookUp (ownRemoved ++ [serviceEvent "own" "update" 20 .failed]) "own" expires ∧
      ∀ t ∈ expires, 20 * 10 ^ 9 < t) ∧
    (admits (ownRemoved.foldl EventFeed.receive (newEventFeed true)).selfServices
      (serviceEvent "web" "remove" 21 .notFound)).1 = true := by
  have honest (a : Arrival) (asked : a = serviceEvent "own" "update" 20 .failed ∨ a = serviceEvent "web" "remove" 21 .notFound) :
      ∀ x ∈ ownRemoved ++ [a], Honest (fun id => id == "own") x := by
    simp only [ownRemoved, List.cons_append, List.nil_append, List.mem_cons, List.not_mem_nil, or_false]
    rintro x (rfl | rfl | rfl | rfl)
    · refine ⟨fun svc id found asks => ?_, le_rfl⟩
      obtain rfl : _ = svc := Inspected.found.inj found
      obtain rfl : "own" = id := Option.some.inj asks
      decide +kernel
    · exact ⟨fun svc id found => (nomatch found), le_rfl⟩
    · exact ⟨fun svc id found => (nomatch found), le_rfl⟩
    · rcases asked with rfl | rfl
      · exact ⟨fun svc id found => (nomatch found), le_rfl⟩
      · exact ⟨fun svc id found => (nomatch found), le_rfl⟩
  constructor
  · exact ((admits_own (honest _ (.inl rfl))).2.1 rfl (by decide +kernel)).1 rfl
  · exact ((admits_own (honest _ (.inr rfl))).1 rfl (.inr rfl)).trans (by decide +kernel)

end Own

end Dockgraph.Server
