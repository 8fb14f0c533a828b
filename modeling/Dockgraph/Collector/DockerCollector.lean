import Dockgraph.Library.Transition
import Mathlib.Data.List.Basic
import Mathlib.Logic.Function.Basic

/-!
# When the daemon is polled (`collector/docker.go`, `collector/debounce.go`)

Three goroutines poll: one at an interval, one for events once they are quiet, one when the swarm's tasks changed.
What the daemon holds is known by a version that every change counts up. A poll asks the daemon several times, so
what it reads is of versions in between.
-/
namespace Dockgraph.Collector

inductive Poller
  | periodic
  | events
  | tasks
  deriving DecidableEq

/-- A snapshot: the versions at its first and after its last question, and those of its tasks and nodes. -/
structure Observed where
  first : Nat
  last : Nat
  tasks : Nat
  nodes : Nat
  deriving DecidableEq

/-- Where a goroutine is. -/
inductive Pc
  | idle
  /-- The task poll has its tasks. -/
  | listed (tasks : Nat)
  /-- At `pollMu.Lock()`. -/
  | waiting
  | reading (first : Nat)
  /-- At the send on `updates`. -/
  | publishing (o : Observed)
  deriving DecidableEq

/-- It is in its poll. -/
def Pc.Polls : Pc → Prop
  | .reading _ | .publishing _ => True
  | _ => False

structure DockerCollector where
  version : Nat := 0
  pc : Poller → Pc := fun _ => .idle
  /-- `pollMu` -/
  holder : Option Poller := none
  taskFP : Option UInt64 := none
  /-- The channel, and all that was ever sent on it. -/
  updates : List Observed := []
  published : List Observed := []
  /-- The debouncer: its timer is set, so many functions of expired ones run, and its channel is full. -/
  timer : Bool := false
  firing : Nat := 0
  notify : Bool := false
  connected : Bool := true
  /-- The versions at the last event, and at the last notification taken up. -/
  received : Nat := 0
  handled : Nat := 0
  /-- Events up to this version may have been left to the next poll, at an error. -/
  lost : Nat := 0

def updatesCapacity : Nat := 16

namespace DockerCollector

inductive Input
  | change
  | tick
  /-- A topology event. -/
  | event
  /-- The timer expires, and its function runs. -/
  | expire
  | fire
  | takeUp
  | streamError
  | reconnect
  /-- `checkTasks` lists the tasks, then the nodes. -/
  | listTasks
  | listNodes
  | listFails
  | lock (p : Poller)
  | read (p : Poller) (tasks nodes : Nat)
  | fail (p : Poller)
  | publish (p : Poller)
  /-- The manager takes an update. -/
  | receive

section Steps

variable (swarm : Bool) (fingerprint : Nat → Nat → UInt64)

def goTo (s : DockerCollector) (p : Poller) (pc : Pc) : DockerCollector := { s with pc := Function.update s.pc p pc }

/-- `debouncer.trigger`: a set timer is stopped, a new one set. -/
def trigger (s : DockerCollector) : DockerCollector := { s with timer := true }

/-- `debouncer.stop` -/
def stop (s : DockerCollector) : DockerCollector :=
  { s with
    timer := false
    -- an event that only the timer waited for
    lost := if s.timer ∧ s.firing = 0 ∧ s.notify = false then max s.lost s.received else s.lost }

def step (s : DockerCollector) : Input → Option DockerCollector
  | .change => some { s with version := s.version + 1 }
  | .tick => if s.pc .periodic = .idle then some (s.goTo .periodic .waiting) else none
  | .event =>
    if s.pc .events = .idle ∧ s.connected then some { s.trigger with received := s.version } else none
  | .expire => if s.timer then some { s with timer := false, firing := s.firing + 1 } else none
  -- a full channel has the notification already
  | .fire => if 0 < s.firing then some { s with firing := s.firing - 1, notify := true } else none
  | .takeUp =>
    if s.pc .events = .idle ∧ s.connected ∧ s.notify then
      some { s.goTo .events .waiting with notify := false, handled := s.version }
    else none
  | .streamError =>
    if s.pc .events = .idle ∧ s.connected then some { s.stop with connected := false } else none
  | .reconnect => if s.connected then none else some { s with connected := true }
  | .listTasks => if swarm ∧ s.pc .tasks = .idle then some (s.goTo .tasks (.listed s.version)) else none
  | .listNodes =>
    match s.pc .tasks with
    | .listed tasks =>
      -- `taskSetChanged`
      some (s.goTo .tasks (if s.taskFP ≠ some (fingerprint tasks s.version) then .waiting else .idle))
    | _ => none
  | .listFails =>
    match s.pc .tasks with
    | .listed _ => some (s.goTo .tasks .idle)
    | _ => none
  | .lock p =>
    if s.pc p = .waiting ∧ s.holder = none then some { s.goTo p (.reading s.version) with holder := some p }
    else none
  | .read p tasks nodes =>
    match s.pc p with
    | .reading first =>
      if first ≤ tasks ∧ tasks ≤ s.version ∧ first ≤ nodes ∧ nodes ≤ s.version then
        some { s.goTo p (.publishing ⟨first, s.version, tasks, nodes⟩) with
          taskFP := if swarm then some (fingerprint tasks nodes) else s.taskFP }
      else none
    | _ => none
  | .fail p =>
    match s.pc p with
    | .reading _ =>
      some { s.goTo p .idle with
        holder := none
        lost := if p = .events then max s.lost s.handled else s.lost }
    | _ => none
  | .publish p =>
    match s.pc p with
    | .publishing o =>
      if s.updates.length < updatesCapacity then
        some { s.goTo p .idle with
          holder := none
          updates := s.updates ++ [o]
          published := s.published ++ [o] }
      else none
    | _ => none
  | .receive =>
    match s.updates with
    | [] => none
    | _ :: rest => some { s with updates := rest }

end Steps

/-! ## What every step keeps -/

/-- The events taken up are in a snapshot or lost, or the poll for them starts after them. -/
def Covers (handled lost : Nat) (published : List Observed) : Pc → Prop
  | .waiting => True
  | .reading first => handled ≤ first
  | .publishing o => handled ≤ o.first
  | _ => handled ≤ lost ∨ ∃ o ∈ published, handled ≤ o.first

/-- Something will take up the events that wait. -/
def Pending (s : DockerCollector) : Prop := s.timer ∨ 0 < s.firing ∨ s.notify

structure Sound (swarm : Bool) (fingerprint : Nat → Nat → UInt64) (s : DockerCollector) : Prop where
  /-- Who polls holds the lock. -/
  locked : ∀ p, (s.pc p).Polls → s.holder = some p
  /-- What is read is not before what was published. -/
  reading : ∀ p first, s.pc p = .reading first → first ≤ s.version ∧ ∀ o ∈ s.published, o.last ≤ first
  publishing : ∀ p o, s.pc p = .publishing o → o.first ≤ o.last ∧ o.last ≤ s.version ∧
    (∀ o' ∈ s.published, o'.last ≤ o.first) ∧ (swarm → s.taskFP = some (fingerprint o.tasks o.nodes))
  published : ∀ o ∈ s.published, o.last ≤ s.version
  ordered : s.published.Pairwise fun o o' => o.last ≤ o'.first
  delivered : s.updates <:+ s.published
  waited : s.received ≤ s.handled ∨ s.received ≤ s.lost ∨ s.Pending
  past : s.handled ≤ s.version ∧ s.received ≤ s.version
  covered : Covers s.handled s.lost s.published (s.pc .events)
  /-- The fingerprint is that of the last snapshot. -/
  fingerprint : swarm → (∀ p o, s.pc p ≠ .publishing o) →
    s.taskFP = s.published.getLast?.map fun o => fingerprint o.tasks o.nodes

theorem sound_initial (swarm : Bool) (fingerprint : Nat → Nat → UInt64) : Sound swarm fingerprint {} := by
  constructor <;> simp [Pc.Polls, Covers]

section Proofs

variable {swarm : Bool} {fingerprint : Nat → Nat → UInt64} {s : DockerCollector} {p q : Poller}

@[simp] theorem goTo_pc (s : DockerCollector) (p q : Poller) (pc : Pc) :
    (s.goTo p pc).pc q = if q = p then pc else s.pc q := Function.update_apply ..

/-- Two who poll are one. -/
theorem Sound.same (sound : Sound swarm fingerprint s) (first : (s.pc p).Polls) (second : (s.pc q).Polls) : p = q :=
  Option.some_inj.mp ((sound.locked p first).symm.trans (sound.locked q second))

theorem not_polls_of_eq {pc : Pc} (here : s.pc p = pc) (outside : ¬pc.Polls) : ¬(s.pc p).Polls := here ▸ outside

theorem Covers.mono {handled lost lost' : Nat} {published published' : List Observed} {pc : Pc}
    (covers : Covers handled lost published pc) (more : lost ≤ lost') (kept : published ⊆ published') :
    Covers handled lost' published' pc := by
  have idle (known : handled ≤ lost ∨ ∃ o ∈ published, handled ≤ o.first) :
      handled ≤ lost' ∨ ∃ o ∈ published', handled ≤ o.first :=
    known.imp (Nat.le_trans · more) fun ⟨o, listed, after⟩ => ⟨o, kept listed, after⟩
  cases pc with
  | waiting => trivial
  | reading first => exact covers
  | publishing o => exact covers
  | idle => exact idle covers
  | listed tasks => exact idle covers

/-- A goroutine outside its poll goes on outside it. -/
theorem Sound.goTo (sound : Sound swarm fingerprint s) {pc : Pc} (outside : ¬(s.pc p).Polls) (stays : ¬pc.Polls)
    (covered : p = .events → Covers s.handled s.lost s.published pc) : Sound swarm fingerprint (s.goTo p pc) := by
  have old (q : Poller) (polls : ((s.goTo p pc).pc q).Polls) : (s.goTo p pc).pc q = s.pc q := by
    rw [goTo_pc] at polls ⊢
    split at polls
    · exact absurd polls stays
    · next other => rw [if_neg other]
  refine ⟨fun q polls => ?_, fun q first here => ?_, fun q o here => ?_, sound.published, sound.ordered,
    sound.delivered, sound.waited, sound.past, ?_, fun swarms none => sound.fingerprint swarms fun q o here => ?_⟩
  · exact sound.locked q (old q polls ▸ polls)
  · exact sound.reading q first ((old q (by rw [here]; trivial)).symm.trans here)
  · exact sound.publishing q o ((old q (by rw [here]; trivial)).symm.trans here)
  · rw [goTo_pc]
    split
    · next events => exact covered events.symm
    · exact sound.covered
  · refine none q o ?_
    rw [goTo_pc, if_neg, here]
    rintro rfl
    exact outside (by rw [here]; trivial)

/-- Outside the polls, only the version and what waits for events changes. -/
theorem Sound.frame (sound : Sound swarm fingerprint s) {t : DockerCollector} (pc : t.pc = s.pc)
    (holder : t.holder = s.holder) (taskFP : t.taskFP = s.taskFP) (published : t.published = s.published)
    (delivered : t.updates <:+ t.published) (version : s.version ≤ t.version)
    (waited : t.received ≤ t.handled ∨ t.received ≤ t.lost ∨ t.Pending)
    (past : t.handled ≤ t.version ∧ t.received ≤ t.version)
    (covered : Covers t.handled t.lost t.published (t.pc .events)) : Sound swarm fingerprint t := by
  refine ⟨fun q polls => ?_, fun q first here => ?_, fun q o here => ?_, fun o listed => ?_, ?_, delivered, waited,
    past, covered, fun swarms none => ?_⟩
  · rw [holder]
    exact sound.locked q (pc ▸ polls)
  · obtain ⟨before, after⟩ := sound.reading q first (pc ▸ here)
    exact ⟨Nat.le_trans before version, published ▸ after⟩
  · obtain ⟨before, seen, after, known⟩ := sound.publishing q o (pc ▸ here)
    exact ⟨before, Nat.le_trans seen version, published ▸ after, taskFP ▸ known⟩
  · exact Nat.le_trans (sound.published o (published ▸ listed)) version
  · rw [published]
    exact sound.ordered
  · rw [taskFP, published]
    exact sound.fingerprint swarms (pc ▸ none)

/-- A goroutine takes the lock and begins to read. -/
theorem Sound.lock (sound : Sound swarm fingerprint s) (free : s.holder = none) :
    Sound swarm fingerprint { s.goTo p (.reading s.version) with holder := some p } := by
  have alone (q : Poller) (polls : (s.pc q).Polls) : False := by
    have held := sound.locked q polls
    rw [free] at held
    cases held
  have mine (q : Poller) (polls : ((s.goTo p (.reading s.version)).pc q).Polls) : q = p := by
    by_contra other
    rw [goTo_pc, if_neg other] at polls
    exact alone q polls
  refine ⟨fun q polls => ?_, fun q first here => ?_, fun q o here => ?_, sound.published, sound.ordered,
    sound.delivered, sound.waited, sound.past, ?_,
    fun swarms _ => sound.fingerprint swarms fun q o here => alone q (by rw [here]; trivial)⟩
  · rw [mine q polls]
  · obtain rfl : q = p := mine q (here ▸ trivial)
    obtain rfl : s.version = first := by simpa using here
    exact ⟨Nat.le_refl _, sound.published⟩
  · obtain rfl : q = p := mine q (here ▸ trivial)
    simp at here
  · simp only [goTo_pc]
    split
    · exact sound.past.1
    · exact sound.covered

/-- The snapshot is read, and its fingerprint kept. -/
theorem Sound.read (sound : Sound swarm fingerprint s) {first tasks nodes : Nat} (reads : s.pc p = .reading first) :
    Sound swarm fingerprint { s.goTo p (.publishing ⟨first, s.version, tasks, nodes⟩) with
      taskFP := if swarm then some (fingerprint tasks nodes) else s.taskFP } := by
  have polls : (s.pc p).Polls := by rw [reads]; trivial
  -- the holder of the mutex is the only one that reads or publishes
  refine ⟨fun q here => ?_, fun q first' here => ?_, fun q o here => ?_, sound.published, sound.ordered,
    sound.delivered, sound.waited, sound.past, ?_,
    fun _ none => absurd (by simp) (none p ⟨first, s.version, tasks, nodes⟩)⟩
  · by_cases same : q = p
    · exact same ▸ sound.locked p polls
    · exact sound.locked q (by simpa [same] using here)
  · by_cases same : q = p
    · simp [same] at here
    · exact sound.reading q first' (by simpa [same] using here)
  · by_cases same : q = p
    · subst same
      obtain rfl : ⟨first, s.version, tasks, nodes⟩ = o := by simpa using here
      obtain ⟨before, after⟩ := sound.reading q first reads
      exact ⟨before, Nat.le_refl _, after, fun swarms => if_pos swarms⟩
    · have there : s.pc q = .publishing o := by simpa [same] using here
      exact absurd (sound.same (by rw [there]; trivial) polls) same
  · have before := sound.covered
    simp only [goTo_pc]
    split
    · next events =>
      rw [events, reads] at before
      exact before
    · exact before

/-- The holder's poll is over, with a snapshot published or without. -/
theorem Sound.unlock (sound : Sound swarm fingerprint s) (polls : (s.pc p).Polls) {t : DockerCollector}
    (pc : t.pc = (s.goTo p .idle).pc) (version : t.version = s.version) (taskFP : t.taskFP = s.taskFP)
    (waiting : t.received = s.received ∧ t.handled = s.handled ∧ s.lost ≤ t.lost ∧ (s.Pending → t.Pending))
    (published : ∀ o ∈ t.published, o.last ≤ s.version) (kept : s.published ⊆ t.published)
    (ordered : t.published.Pairwise fun o o' => o.last ≤ o'.first) (delivered : t.updates <:+ t.published)
    (covered : p = .events → t.handled ≤ t.lost ∨ ∃ o ∈ t.published, t.handled ≤ o.first)
    (known : swarm → s.taskFP = t.published.getLast?.map fun o => fingerprint o.tasks o.nodes) :
    Sound swarm fingerprint t := by
  obtain ⟨received, handled, lost, pending⟩ := waiting
  -- whoever polls holds the mutex, and its holder lets go
  have nobody (q : Poller) : ¬(t.pc q).Polls := by
    rw [pc, goTo_pc]
    split
    · exact id
    · next other => exact fun here => other (sound.same here polls)
  refine ⟨fun q here => absurd here (nobody q), fun q f here => absurd (by rw [here]; trivial) (nobody q),
    fun q o here => absurd (by rw [here]; trivial) (nobody q), ?_, ordered, delivered, ?_, ?_, ?_,
    fun swarms _ => taskFP ▸ known swarms⟩
  · rw [version]
    exact published
  · rw [received, handled]
    exact sound.waited.imp_right (Or.imp (Nat.le_trans · lost) pending)
  · rw [received, handled, version]
    exact sound.past
  · rw [pc, goTo_pc]
    split
    · next events => exact covered events.symm
    · rw [handled]
      exact sound.covered.mono lost kept

theorem Sound.fail (sound : Sound swarm fingerprint s) {first : Nat} (reads : s.pc p = .reading first) :
    Sound swarm fingerprint { s.goTo p .idle with
      holder := none
      lost := if p = .events then max s.lost s.handled else s.lost } := by
  have polls : (s.pc p).Polls := by rw [reads]; trivial
  have before (q : Poller) (o : Observed) : s.pc q ≠ .publishing o := fun here => by
    have same := sound.same (p := q) (by rw [here]; trivial) polls
    rw [same, reads] at here
    cases here
  refine sound.unlock polls rfl rfl rfl ⟨rfl, rfl, ?_, id⟩ sound.published (List.Subset.refl _) sound.ordered
    sound.delivered (fun events => .inl ?_) fun swarms => sound.fingerprint swarms before
  · simp only
    split
    · exact Nat.le_max_left _ _
    · exact Nat.le_refl _
  · rw [if_pos events]
    exact Nat.le_max_right _ _

theorem Sound.publish (sound : Sound swarm fingerprint s) {o : Observed} (publishes : s.pc p = .publishing o) :
    Sound swarm fingerprint { s.goTo p .idle with
      holder := none
      updates := s.updates ++ [o]
      published := s.published ++ [o] } := by
  have polls : (s.pc p).Polls := by rw [publishes]; trivial
  obtain ⟨-, seen, after, known⟩ := sound.publishing p o publishes
  -- what was read after every earlier snapshot is published after them
  refine sound.unlock polls rfl rfl rfl ⟨rfl, rfl, Nat.le_refl _, id⟩ (fun o' listed => ?_)
    (List.subset_append_left _ _) ?_ ?_ (fun events => .inr ⟨o, by simp, ?_⟩) fun swarms => ?_
  · rcases List.mem_append.mp listed with earlier | last
    · exact sound.published o' earlier
    · obtain rfl := List.mem_singleton.mp last
      exact seen
  · refine List.pairwise_append.mpr ⟨sound.ordered, List.pairwise_singleton _ _, fun o' earlier o'' last => ?_⟩
    obtain rfl := List.mem_singleton.mp last
    exact after o' earlier
  · obtain ⟨taken, whole⟩ := sound.delivered
    exact ⟨taken, by simp [← whole]⟩
  · have before := sound.covered
    rw [← events, publishes] at before
    exact before
  · simp [known swarms]

section Steps

variable {t : DockerCollector}

/-- An event, the expiry of its timer and the timer's function: something of the event stays pending. -/
theorem Sound.debounce {input : Input} (sound : Sound swarm fingerprint s)
    (debounces : input = .event ∨ input = .expire ∨ input = .fire)
    (next : s.step swarm fingerprint input = some t) : Sound swarm fingerprint t := by
  rcases debounces with rfl | rfl | rfl
  · obtain ⟨_, rfl⟩ := Option.ite_none_right_eq_some.mp next |>.imp_right Option.some_inj.mp
    exact sound.frame rfl rfl rfl rfl sound.delivered (Nat.le_refl _) (.inr (.inr (.inl rfl)))
      ⟨sound.past.1, Nat.le_refl _⟩ sound.covered
  · obtain ⟨_, rfl⟩ := Option.ite_none_right_eq_some.mp next |>.imp_right Option.some_inj.mp
    exact sound.frame rfl rfl rfl rfl sound.delivered (Nat.le_refl _) (.inr (.inr (.inr (.inl (Nat.succ_pos _)))))
      sound.past sound.covered
  · obtain ⟨_, rfl⟩ := Option.ite_none_right_eq_some.mp next |>.imp_right Option.some_inj.mp
    exact sound.frame rfl rfl rfl rfl sound.delivered (Nat.le_refl _) (.inr (.inr (.inr (.inr rfl))))
      sound.past sound.covered

/-- The watcher takes the events handled so far into its next snapshot. -/
theorem Sound.takeUp (sound : Sound swarm fingerprint s) (next : s.step swarm fingerprint .takeUp = some t) :
    Sound swarm fingerprint t := by
  obtain ⟨⟨idle, _⟩, rfl⟩ := Option.ite_none_right_eq_some.mp next |>.imp_right Option.some_inj.mp
  have moved : Sound swarm fingerprint (s.goTo .events .waiting) := sound.goTo (not_polls_of_eq idle id) id fun _ => trivial
  refine moved.frame rfl rfl rfl rfl sound.delivered (Nat.le_refl _) (.inl sound.past.2)
    ⟨Nat.le_refl _, sound.past.2⟩ ?_
  simp [Covers]

/-- Stopping the timer gives up the event that set it. -/
theorem Sound.streamError (sound : Sound swarm fingerprint s)
    (next : s.step swarm fingerprint .streamError = some t) : Sound swarm fingerprint t := by
  obtain ⟨_, rfl⟩ := Option.ite_none_right_eq_some.mp next |>.imp_right Option.some_inj.mp
  have more : s.lost ≤ s.stop.lost := by
    simp only [stop]
    split
    · exact Nat.le_max_left _ _
    · exact Nat.le_refl _
  refine sound.frame rfl rfl rfl rfl sound.delivered (Nat.le_refl _) ?_ sound.past
    (sound.covered.mono more (List.Subset.refl _))
  rcases sound.waited with taken | gone | pending
  · exact .inl taken
  · exact .inr (.inl (Nat.le_trans gone more))
  · by_cases only : s.timer ∧ s.firing = 0 ∧ s.notify = false
    · refine .inr (.inl ?_)
      simp only [stop, if_pos only]
      exact Nat.le_max_right _ _
    · refine .inr (.inr (.inr ?_))
      simp only [Pending, stop] at pending ⊢
      grind

/-- The task poller only moves between its own places until it polls. -/
theorem Sound.list {input : Input} (sound : Sound swarm fingerprint s)
    (lists : input = .listTasks ∨ input = .listNodes ∨ input = .listFails)
    (next : s.step swarm fingerprint input = some t) : Sound swarm fingerprint t := by
  rcases lists with rfl | rfl | rfl
  · obtain ⟨⟨_, idle⟩, rfl⟩ := Option.ite_none_right_eq_some.mp next |>.imp_right Option.some_inj.mp
    exact sound.goTo (not_polls_of_eq idle id) id nofun
  · simp only [DockerCollector.step] at next
    split at next
    · next tasks listed =>
      obtain rfl := Option.some_inj.mp next
      refine sound.goTo (not_polls_of_eq listed id) ?_ nofun
      split <;> exact id
    · cases next
  · simp only [DockerCollector.step] at next
    split at next
    · next tasks listed =>
      obtain rfl := Option.some_inj.mp next
      exact sound.goTo (not_polls_of_eq listed id) id nofun
    · cases next

/-- A poll's own steps: the lock, the reads, and the end in a snapshot or not. -/
theorem Sound.poll {input : Input} {p : Poller} (sound : Sound swarm fingerprint s)
    (polls : input = .lock p ∨ (∃ tasks nodes, input = .read p tasks nodes) ∨ input = .fail p ∨ input = .publish p)
    (next : s.step swarm fingerprint input = some t) : Sound swarm fingerprint t := by
  rcases polls with rfl | ⟨tasks, nodes, rfl⟩ | rfl | rfl
  · obtain ⟨⟨_, free⟩, rfl⟩ := Option.ite_none_right_eq_some.mp next |>.imp_right Option.some_inj.mp
    exact sound.lock free
  · simp only [DockerCollector.step] at next
    split at next
    · next first reads =>
      obtain ⟨_, rfl⟩ := Option.ite_none_right_eq_some.mp next |>.imp_right Option.some_inj.mp
      exact sound.read reads
    · cases next
  · simp only [DockerCollector.step] at next
    split at next
    · next first reads => exact Option.some_inj.mp next ▸ sound.fail reads
    · cases next
  · simp only [DockerCollector.step] at next
    split at next
    · next o publishes =>
      obtain ⟨_, rfl⟩ := Option.ite_none_right_eq_some.mp next |>.imp_right Option.some_inj.mp
      exact sound.publish publishes
    · cases next

theorem Sound.receive (sound : Sound swarm fingerprint s) (next : s.step swarm fingerprint .receive = some t) :
    Sound swarm fingerprint t := by
  simp only [DockerCollector.step] at next
  split at next
  · cases next
  · next o rest taken =>
    obtain rfl := Option.some_inj.mp next
    have suffix : rest <:+ s.published := (List.suffix_cons o rest).trans (taken ▸ sound.delivered)
    exact sound.frame rfl rfl rfl rfl suffix (Nat.le_refl _) sound.waited sound.past sound.covered

theorem Sound.step {input : Input} (sound : Sound swarm fingerprint s)
    (next : s.step swarm fingerprint input = some t) : Sound swarm fingerprint t := by
  cases input with
  | change =>
    obtain rfl := Option.some_inj.mp next
    exact sound.frame rfl rfl rfl rfl sound.delivered (Nat.le_succ _) sound.waited
      ⟨Nat.le_succ_of_le sound.past.1, Nat.le_succ_of_le sound.past.2⟩ sound.covered
  | tick =>
    obtain ⟨idle, rfl⟩ := Option.ite_none_right_eq_some.mp next |>.imp_right Option.some_inj.mp
    exact sound.goTo (not_polls_of_eq idle id) id nofun
  | event => exact sound.debounce (.inl rfl) next
  | expire => exact sound.debounce (.inr (.inl rfl)) next
  | fire => exact sound.debounce (.inr (.inr rfl)) next
  | takeUp => exact sound.takeUp next
  | streamError => exact sound.streamError next
  | reconnect =>
    obtain ⟨_, rfl⟩ := Option.ite_none_left_eq_some.mp next |>.imp_right Option.some_inj.mp
    exact sound.frame rfl rfl rfl rfl sound.delivered (Nat.le_refl _) sound.waited sound.past sound.covered
  | listTasks => exact sound.list (.inl rfl) next
  | listNodes => exact sound.list (.inr (.inl rfl)) next
  | listFails => exact sound.list (.inr (.inr rfl)) next
  | lock p => exact sound.poll (.inl rfl) next
  | read p tasks nodes => exact sound.poll (.inr (.inl ⟨tasks, nodes, rfl⟩)) next
  | fail p => exact sound.poll (.inr (.inr (.inl rfl))) next
  | publish p => exact sound.poll (.inr (.inr (.inr rfl))) next
  | receive => exact sound.receive next

end Steps

theorem sound_run {inputs : List Input} (run : Transition.exec (step swarm fingerprint) {} inputs = some s) :
    Sound swarm fingerprint s :=
  have permitted : Transition.Along (step swarm fingerprint) (fun _ _ => True) {} inputs :=
    Transition.along_of_forall (p := fun _ => True) fun _ _ => trivial
  Transition.exec_invariant (fun _ _ _ sound _ next => sound.step next) (sound_initial swarm fingerprint) permitted run

/-- The manager gets the snapshots in the order they were read, none read into the next one. Once nothing of an event
is pending, a snapshot begun after it is published or an error lost it. The fingerprint is the last snapshot's. -/
theorem collector_run {inputs : List Input} (run : Transition.exec (step swarm fingerprint) {} inputs = some s) :
    s.published.Pairwise (fun o o' => o.last ≤ o'.first) ∧ s.updates <:+ s.published ∧
    (s.pc .events = .idle → ¬s.Pending → s.received ≤ s.lost ∨ ∃ o ∈ s.published, s.received ≤ o.first) ∧
    (swarm → (∀ p o, s.pc p ≠ .publishing o) →
      s.taskFP = s.published.getLast?.map fun o => fingerprint o.tasks o.nodes) := by
  have sound := sound_run run
  refine ⟨sound.ordered, sound.delivered, fun idle quiet => ?_, sound.fingerprint⟩
  have covered := sound.covered
  rw [idle] at covered
  rcases sound.waited with taken | gone | pending
  · exact covered.imp (Nat.le_trans taken) fun ⟨o, listed, after⟩ => ⟨o, listed, Nat.le_trans taken after⟩
  · exact .inl gone
  · exact absurd pending quiet

end Proofs

/-- A container starts while the interval's poll reads, and its event's poll waits for that one. -/
theorem collector_run_burst :
    ∃ s, Transition.exec (step true fun tasks nodes => .ofNat (10 * tasks + nodes)) {}
      [.change, .event, .expire, .fire, .tick, .lock .periodic, .takeUp, .change, .read .periodic 1 2,
        .publish .periodic, .lock .events, .read .events 2 2, .publish .events, .receive] = some s ∧
      s.taskFP = some 22 ∧ (s.received ≤ s.lost ∨ ∃ o ∈ s.published, s.received ≤ o.first) := by
  have run : Transition.exec (step true fun tasks nodes => .ofNat (10 * tasks + nodes)) {}
      [.change, .event, .expire, .fire, .tick, .lock .periodic, .takeUp, .change, .read .periodic 1 2,
        .publish .periodic, .lock .events, .read .events 2 2, .publish .events, .receive] = some _ := rfl
  refine ⟨_, run, rfl, (collector_run run).2.2.1 rfl ?_⟩
  rintro (set | fires | full)
  · exact Bool.false_ne_true set
  · exact Nat.lt_irrefl 0 fires
  · exact Bool.false_ne_true full

end DockerCollector

end Dockgraph.Collector
