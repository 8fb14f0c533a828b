import Dockgraph.Api.ServiceFollower

/-!
# Resuming a service log

A cursor is one timestamp. It tells the lines that were forwarded from the others only where the
tasks' lines are in the order of their timestamps around it, and there is none before the first line.
-/
namespace Dockgraph.Api

open Timestamp Suffix Transition

namespace ServiceFollower

variable {s t : ServiceFollower}

/-- When the line was logged. -/
def instant (e : LogEntry) : Int := (timeParse e.timestamp).getD 0

/-- The lines forwarded are no later than the last of them, and the other lines are. -/
structure Divides (s : ServiceFollower) : Prop where
  fresh : s.forwarded = [] → s.sinceOpen = []
  sent : ∀ l, s.forwarded.getLast? = some l → ∀ e ∈ newest resumeTailLines s.log,
    e ∈ s.sinceOpen → e ∈ s.forwarded → instant e ≤ instant l
  unsent : ∀ l, s.forwarded.getLast? = some l → ∀ e ∈ s.sinceOpen, e ∉ s.forwarded → instant l < instant e

/-- Streams open where the last line forwarded divides the log. -/
def Orderly (s : ServiceFollower) : Step → Prop
  | .openStream => s.Divides
  | .log _ | .openFails _ | .forward | .streamEnds => True

/-- No more lines wait for a stream than it resumes with. -/
def Brief (s : ServiceFollower) : Step → Prop
  | .openStream => (s.sinceOpen.filter fun e => e ∉ s.forwarded).length ≤ resumeTailLines
  | .log _ | .openFails _ | .forward | .streamEnds => True

instance (s : ServiceFollower) : (i : Step) → Decidable (s.Brief i)
  | .openStream => inferInstanceAs (Decidable (_ ≤ _))
  | .log _ | .openFails _ | .forward | .streamEnds => inferInstanceAs (Decidable True)

/-! ## The log -/

theorem sinceOpen_sublist (s : ServiceFollower) : s.sinceOpen.Sublist s.log := by
  unfold sinceOpen
  split
  · exact List.nil_sublist _
  · exact List.drop_sublist _ _

/-- What a run keeps up: lines are logged once, and Docker sends lines of the log. -/
structure Logged (s : ServiceFollower) : Prop where
  nodup : s.log.Nodup
  forwarded : ∀ e ∈ s.forwarded, e ∈ s.log
  coming : s.coming.Sublist s.log
  opened : ∀ n, s.firstOpen = some n → n ≤ s.log.length

/-- Every line since the first open attempt is forwarded once at most, the lines to come included. -/
def Once (s : ServiceFollower) : Prop :=
  ∀ e ∈ s.sinceOpen, s.forwarded.count e + s.coming.count e ≤ 1

/-- The lines since the first open attempt that were forwarded or are to come. -/
def seen (s : ServiceFollower) : List LogEntry :=
  (s.forwarded ++ s.coming).filter fun e => e ∈ s.sinceOpen

def Streaming (s : ServiceFollower) : Prop := ∃ coming, s.phase = .streaming coming

/-- They are the first ones, and with an open stream they are all. -/
structure Gapless (s : ServiceFollower) : Prop where
  ahead : s.seen <+: s.sinceOpen
  streaming : s.Streaming → s.seen = s.sinceOpen

/-! ## A line is logged -/

/-- A line that was not there before. -/
theorem fresh_of_logs {e : LogEntry} (step : s.logs e = some t) : e ∉ s.log := by
  intro old
  obtain ⟨fresh, -⟩ := Option.ite_none_right_eq_some.mp step
  exact fresh.2 e old rfl

theorem coming_of_idle (idle : ¬s.Streaming) : s.coming = [] := by
  unfold coming
  split
  next coming phase => exact absurd ⟨coming, phase⟩ idle
  · rfl

theorem logs_cases {e : LogEntry} (step : s.logs e = some t) :
    t.log = s.log ++ [e] ∧ t.forwarded = s.forwarded ∧ t.firstOpen = s.firstOpen ∧
      (s.Streaming ∧ t.coming = s.coming ++ [e] ∨ ¬s.Streaming ∧ t.phase = s.phase) := by
  obtain ⟨-, made⟩ := Option.ite_none_right_eq_some.mp step
  cases made
  refine ⟨rfl, rfl, rfl, ?_⟩
  unfold coming Streaming
  cases phase : s.phase with
  | streaming coming => exact .inl ⟨⟨coming, rfl⟩, rfl⟩
  | waiting => exact .inr ⟨nofun, rfl⟩
  | returned => exact .inr ⟨nofun, rfl⟩

theorem sinceOpen_logs {e : LogEntry} (logged : Logged s) (log : t.log = s.log ++ [e])
    (same : t.firstOpen = s.firstOpen) :
    (t.sinceOpen = [] ∧ s.sinceOpen = []) ∨ t.sinceOpen = s.sinceOpen ++ [e] := by
  unfold sinceOpen
  rw [same, log]
  cases first : s.firstOpen with
  | none => exact .inl ⟨rfl, rfl⟩
  | some n => exact .inr (List.drop_append_of_le_length (logged.opened n first))

/-- The line joins the ones to come, or nothing is to come. -/
theorem coming_logs {e : LogEntry}
    (phase : s.Streaming ∧ t.coming = s.coming ++ [e] ∨ ¬s.Streaming ∧ t.phase = s.phase) :
    t.coming = s.coming ++ [e] ∨ (t.coming = [] ∧ s.coming = []) := by
  rcases phase with ⟨-, joined⟩ | ⟨idle, same⟩
  · exact .inl joined
  · refine .inr ⟨coming_of_idle fun streaming => idle ?_, coming_of_idle idle⟩
    rwa [Streaming, ← same]

theorem logged_logs {e : LogEntry} (logged : Logged s) (step : s.logs e = some t) : Logged t := by
  have fresh := fresh_of_logs step
  obtain ⟨log, forwarded, opened, phase⟩ := logs_cases step
  constructor
  · rw [log]
    exact List.nodup_append.mpr ⟨logged.nodup, List.nodup_singleton e, by
      rintro a old b new rfl
      exact fresh (List.mem_singleton.mp new ▸ old)⟩
  · intro k sent
    rw [forwarded] at sent
    rw [log]
    exact List.mem_append_left _ (logged.forwarded k sent)
  · rw [log]
    -- the line is the newest of the log and of those to come
    rcases coming_logs phase with more | ⟨none, -⟩
    · rw [more]
      exact logged.coming.append (List.Sublist.refl [e])
    · rw [none]
      exact List.nil_sublist _
  · intro n first
    rw [opened] at first
    rw [log, List.length_append]
    exact Nat.le_add_right_of_le (logged.opened n first)

theorem once_logs {e : LogEntry} (logged : Logged s) (once : s.Once) (step : s.logs e = some t) :
    t.Once := by
  have fresh := fresh_of_logs step
  obtain ⟨log, forwarded, opened, phase⟩ := logs_cases step
  -- a line that is new was neither sent nor expected
  have unsent : s.forwarded.count e = 0 :=
    List.count_eq_zero.mpr fun sent => fresh (logged.forwarded e sent)
  have expected : s.coming.count e = 0 :=
    List.count_eq_zero.mpr fun coming => fresh (logged.coming.subset coming)
  intro k member
  rw [forwarded]
  rcases sinceOpen_logs logged log opened with ⟨none, -⟩ | more
  · rw [none] at member
    cases member
  · rw [more, List.mem_append, List.mem_singleton] at member
    rcases coming_logs phase with joined | ⟨none, -⟩
    · rw [joined, List.count_append, List.count_singleton]
      -- a line from before, or the new one
      rcases member with old | rfl
      · have other : (e == k) = false :=
          beq_eq_false_iff_ne.mpr fun same => fresh (same ▸ s.sinceOpen_sublist.subset old)
        have := once k old
        simp only [other, Bool.false_eq_true, if_false]
        omega
      · simp only [beq_self_eq_true, if_true]
        omega
    · rw [none, List.count_nil]
      rcases member with old | rfl
      · have := once k old
        omega
      · omega

theorem seen_of_empty (none : s.sinceOpen = []) : s.seen = [] := by
  simp [seen, none]

theorem gapless_of_empty (none : s.sinceOpen = []) : s.Gapless := by
  have seen := seen_of_empty none
  exact ⟨by rw [seen]; exact List.nil_prefix, fun _ => by rw [seen, none]⟩

theorem gapless_logs {e : LogEntry} (logged : Logged s) (gapless : s.Gapless)
    (step : s.logs e = some t) : t.Gapless := by
  have fresh := fresh_of_logs step
  obtain ⟨log, forwarded, opened, phase⟩ := logs_cases step
  rcases sinceOpen_logs logged log opened with ⟨none, -⟩ | more
  · exact gapless_of_empty none
  · -- the new line is not among the old ones
    have old : (s.forwarded ++ s.coming).filter (fun k => k ∈ s.sinceOpen ++ [e]) = s.seen := by
      refine List.filter_congr fun k member => decide_eq_decide.mpr ?_
      rw [List.mem_append, List.mem_singleton]
      refine or_iff_left fun same => fresh (same ▸ ?_)
      exact (List.mem_append.mp member).elim (logged.forwarded k) fun coming =>
        logged.coming.subset coming
    rcases phase with ⟨streaming, joined⟩ | ⟨idle, same⟩
    -- an open stream brings the new line too
    · have all : t.seen = t.sinceOpen := by
        rw [seen, forwarded, joined, more, ← List.append_assoc, List.filter_append, old,
          gapless.streaming streaming]
        simp
      exact ⟨all ▸ List.prefix_refl _, fun _ => all⟩
    -- without a stream, what was seen stays a first part
    · have stopped : ¬t.Streaming := by rwa [Streaming, same]
      have kept : t.seen = s.seen := by
        rw [← old, seen, forwarded, more, coming_of_idle stopped, coming_of_idle idle]
      refine ⟨?_, fun streaming => absurd streaming stopped⟩
      rw [kept, more]
      exact gapless.ahead.trans (List.prefix_append _ _)

/-! ## Streams end and open -/

/-- A call of `follow` that returned leaves the lines as they are, and nothing to come. -/
theorem resume_frame (s : ServiceFollower) (notFound : Bool) :
    (s.resume notFound).log = s.log ∧ (s.resume notFound).forwarded = s.forwarded ∧
      (s.resume notFound).firstOpen = s.firstOpen ∧ ¬(s.resume notFound).Streaming := by
  unfold resume Streaming
  split
  · exact ⟨rfl, rfl, rfl, nofun⟩
  · split <;> exact ⟨rfl, rfl, rfl, nofun⟩

theorem sinceOpen_eq (log : t.log = s.log) (opened : t.firstOpen = s.firstOpen) :
    t.sinceOpen = s.sinceOpen := by
  unfold sinceOpen
  rw [log, opened]

/-- The first attempt leaves no line before it to be resumed. -/
theorem sinceOpen_follow (s : ServiceFollower) :
    s.follow.sinceOpen = s.sinceOpen := by
  unfold sinceOpen follow
  cases s.firstOpen with
  | none => exact List.drop_length
  | some n => rfl

theorem opened_follow (logged : Logged s) {n : Nat} (first : s.follow.firstOpen = some n) :
    n ≤ s.log.length := by
  change s.firstOpen.or (some s.log.length) = some n at first
  cases opened : s.firstOpen with
  | none =>
    rw [opened, Option.none_or, Option.some.injEq] at first
    exact first.ge
  | some m =>
    rw [opened, Option.some_or, Option.some.injEq] at first
    exact first ▸ logged.opened m opened

/-- Nothing is lost or opened but the stream. -/
structure Idles (s t : ServiceFollower) : Prop where
  log : t.log = s.log
  forwarded : t.forwarded = s.forwarded
  since : t.sinceOpen = s.sinceOpen
  idle : ¬t.Streaming

theorem idles_openFails {notFound : Bool} (step : s.openFails notFound = some t) :
    Idles s t ∧ t.firstOpen = s.follow.firstOpen := by
  obtain ⟨-, made⟩ := Option.ite_none_right_eq_some.mp step
  cases made
  obtain ⟨log, forwarded, opened, idle⟩ := resume_frame s.follow notFound
  exact ⟨⟨log, forwarded, (sinceOpen_eq log opened).trans (sinceOpen_follow s), idle⟩, opened⟩

theorem idles_streamEnds (step : s.streamEnds = some t) : Idles s t ∧ t.firstOpen = s.firstOpen := by
  unfold streamEnds at step
  split at step
  · cases step
    obtain ⟨log, forwarded, opened, idle⟩ := resume_frame s false
    exact ⟨⟨log, forwarded, sinceOpen_eq log opened, idle⟩, opened⟩
  · cases step

theorem logged_idle (logged : Logged s) (idles : Idles s t)
    (opened : ∀ n, t.firstOpen = some n → n ≤ s.log.length) : Logged t where
  nodup := idles.log ▸ logged.nodup
  forwarded := by
    rw [idles.log, idles.forwarded]
    exact logged.forwarded
  coming := by
    rw [coming_of_idle idles.idle]
    exact List.nil_sublist _
  opened := by
    rw [idles.log]
    exact opened

theorem once_idle (once : s.Once) (idles : Idles s t) : t.Once := by
  intro e member
  rw [idles.since] at member
  rw [idles.forwarded, coming_of_idle idles.idle, List.count_nil]
  have := once e member
  omega

theorem gapless_idle (gapless : s.Gapless) (idles : Idles s t) : t.Gapless := by
  refine ⟨?_, fun streaming => absurd streaming idles.idle⟩
  -- the lines that were to come are lost, and they were the last
  have part : t.seen <+: s.seen := by
    rw [seen, seen, idles.since, idles.forwarded, coming_of_idle idles.idle, List.append_nil,
      List.filter_append]
    exact List.prefix_append _ _
  rw [idles.since]
  exact part.trans gapless.ahead

theorem forward_cases (step : s.forward = some t) :
    ∃ e coming, s.coming = e :: coming ∧ t.coming = coming ∧ t.forwarded = s.forwarded ++ [e] ∧
      t.log = s.log ∧ t.firstOpen = s.firstOpen ∧ s.Streaming := by
  unfold forward at step
  split at step
  next e rest phase =>
    cases step
    refine ⟨e, rest, ?_, rfl, rfl, rfl, rfl, _, phase⟩
    unfold coming
    rw [phase]
  · cases step

theorem logged_forward (logged : Logged s) (step : s.forward = some t) : Logged t := by
  obtain ⟨e, rest, coming, left, forwarded, log, opened, -⟩ := forward_cases step
  have sub := logged.coming
  rw [coming] at sub
  constructor
  · exact log ▸ logged.nodup
  · intro k member
    rw [forwarded] at member
    rw [log]
    rcases List.mem_append.mp member with old | new
    · exact logged.forwarded k old
    · rw [List.mem_singleton.mp new]
      exact sub.subset List.mem_cons_self
  · rw [left, log]
    exact (List.sublist_cons_self e rest).trans sub
  · intro n first
    rw [log]
    exact logged.opened n (opened ▸ first)

theorem once_forward (once : s.Once) (step : s.forward = some t) : t.Once := by
  obtain ⟨e, rest, coming, left, forwarded, log, opened, -⟩ := forward_cases step
  intro k member
  rw [sinceOpen_eq log opened] at member
  have total := once k member
  rw [coming, List.count_cons] at total
  rw [forwarded, left, List.count_append, List.count_singleton]
  omega

theorem gapless_forward (gapless : s.Gapless) (step : s.forward = some t) : t.Gapless := by
  obtain ⟨e, rest, coming, left, forwarded, log, opened, streaming⟩ := forward_cases step
  have since := sinceOpen_eq log opened
  -- the line only moves from those to come to those sent
  have same : t.seen = s.seen := by
    rw [seen, seen, since, forwarded, left, coming, List.append_assoc, List.singleton_append]
  exact ⟨by rw [same, since]; exact gapless.ahead,
    fun _ => by rw [same, since]; exact gapless.streaming streaming⟩

theorem openStream_cases (step : s.openStream = some t) :
    ¬s.Streaming ∧ t.coming = s.replay ∧ t.forwarded = s.forwarded ∧ t.log = s.log ∧
      t.sinceOpen = s.sinceOpen ∧ t.firstOpen = s.follow.firstOpen := by
  obtain ⟨waiting, made⟩ := Option.ite_none_right_eq_some.mp step
  cases made
  refine ⟨?_, rfl, rfl, rfl, sinceOpen_follow s, rfl⟩
  rintro ⟨coming, streaming⟩
  rw [waiting] at streaming
  cases streaming

theorem replay_sublist (s : ServiceFollower) : s.replay.Sublist s.log := by
  unfold replay
  split
  · exact List.nil_sublist _
  · exact List.filter_sublist.trans (newest_suffix _ _).sublist

theorem mem_replay {e : LogEntry} (member : e ∈ s.replay) : ∃ since, s.since = some since ∧
    e ∈ newest resumeTailLines s.log ∧ atOrAfter since e = true := by
  unfold replay at member
  split at member
  · cases member
  next since cursor => exact ⟨since, cursor, List.mem_filter.mp member⟩

/-! ## The cursor -/

/-- The instant of the last line forwarded. -/
def lastSent (s : ServiceFollower) : Option Int := s.forwarded.getLast?.bind fun e => timeParse e.timestamp

/-- The cursor that the next stream opens with. -/
def resumed (s : ServiceFollower) : Option Int := (timeParse s.last).elim s.since fun ts => some (ts + 1)

/-- It is a nanosecond after the last line forwarded. -/
structure Tracks (s : ServiceFollower) : Prop where
  stamped : ∀ e ∈ s.log, timeParse e.timestamp ≠ none
  resumed : s.resumed = s.lastSent.map (· + 1)
  idle : ¬s.Streaming → s.since = s.resumed

theorem resumed_follow (s : ServiceFollower) : s.follow.resumed = s.since := by
  unfold resumed
  change (timeParse "").elim s.since _ = _
  rw [timeParse_empty]
  rfl

theorem resumed_resume (s : ServiceFollower) (notFound : Bool) : (s.resume notFound).resumed = s.resumed := by
  unfold resume resumed
  cases notFound with
  | true => rfl
  | false => cases parsed : timeParse s.last <;> simp [parsed]

/-- A stream that ended leaves the cursor where the next one opens. -/
theorem since_resume (s : ServiceFollower) : (s.resume false).since = s.resumed := by
  unfold resume resumed
  cases timeParse s.last <;> simp

theorem tracks_logs {e : LogEntry} (tracks : Tracks s) (step : s.logs e = some t) : Tracks t := by
  obtain ⟨new, made⟩ := Option.ite_none_right_eq_some.mp step
  obtain ⟨-, -, -, phase⟩ := logs_cases step
  cases made
  refine ⟨fun k member => ?_, tracks.resumed, fun idle => tracks.idle ?_⟩
  · rcases List.mem_append.mp member with old | last
    · exact tracks.stamped k old
    · rw [List.mem_singleton.mp last]
      exact new.1
  · rintro ⟨coming, streaming⟩
    exact idle ⟨coming ++ [e], by dsimp only; rw [streaming]⟩

theorem tracks_openFails {notFound : Bool} (tracks : Tracks s) (step : s.openFails notFound = some t) :
    Tracks t := by
  have idles := (idles_openFails step).1
  obtain ⟨waiting, made⟩ := Option.ite_none_right_eq_some.mp step
  have idle : ¬s.Streaming := by
    rintro ⟨coming, streaming⟩
    rw [waiting] at streaming
    cases streaming
  have resumed : t.resumed = s.since := by
    cases made
    rw [resumed_resume, resumed_follow]
  have since : t.since = s.since := by
    cases made
    cases notFound with
    | true => rfl
    | false => rw [since_resume, resumed_follow]
  refine ⟨idles.log ▸ tracks.stamped, ?_, fun _ => since.trans resumed.symm⟩
  rw [resumed, tracks.idle idle, tracks.resumed, lastSent, lastSent, idles.forwarded]

theorem tracks_openStream (tracks : Tracks s) (step : s.openStream = some t) : Tracks t := by
  obtain ⟨idle, -, forwarded, log, -⟩ := openStream_cases step
  obtain ⟨-, made⟩ := Option.ite_none_right_eq_some.mp step
  have resumed : t.resumed = s.since := by
    cases made
    exact resumed_follow s
  have streaming : t.Streaming := by
    cases made
    exact ⟨_, rfl⟩
  refine ⟨log ▸ tracks.stamped, ?_, fun away => absurd streaming away⟩
  rw [resumed, tracks.idle idle, tracks.resumed, lastSent, lastSent, forwarded]

/-- A line that is forwarded has a timestamp. -/
theorem tracks_forward (logged : Logged s) (tracks : Tracks s) (step : s.forward = some t) : Tracks t := by
  unfold forward at step
  split at step
  next e coming phase =>
    have sent : e ∈ s.log := logged.coming.subset (by rw [ServiceFollower.coming, phase]; exact List.mem_cons_self)
    have stamped := tracks.stamped e sent
    have some : e.timestamp ≠ "" := by
      intro empty
      rw [empty, timeParse_empty] at stamped
      exact stamped rfl
    cases step
    refine ⟨tracks.stamped, ?_, fun away => absurd ⟨coming, rfl⟩ away⟩
    obtain ⟨ts, parsed⟩ := Option.ne_none_iff_exists'.mp stamped
    simp [resumed, lastSent, some, parsed]
  · cases step

theorem tracks_streamEnds (tracks : Tracks s) (step : s.streamEnds = some t) : Tracks t := by
  have idles := (idles_streamEnds step).1
  unfold streamEnds at step
  split at step
  · cases step
    refine ⟨idles.log ▸ tracks.stamped, ?_, fun _ => (since_resume s).trans (resumed_resume s false).symm⟩
    rw [resumed_resume, tracks.resumed, lastSent, lastSent, idles.forwarded]
  · cases step

theorem tracks_step {i : Step} (logged : Logged s) (tracks : Tracks s) (step : s.step i = some t) : Tracks t := by
  cases i with
  | log e => exact tracks_logs tracks step
  | openFails notFound => exact tracks_openFails tracks step
  | openStream => exact tracks_openStream tracks step
  | forward => exact tracks_forward logged tracks step
  | streamEnds => exact tracks_streamEnds tracks step

/-- The cursor has the lines forwarded before it, and the others after it. -/
structure Parts (s : ServiceFollower) : Prop where
  fresh : s.since = none → s.sinceOpen = []
  sent : ∀ since, s.since = some since → ∀ e ∈ newest resumeTailLines s.log,
    e ∈ s.sinceOpen → e ∈ s.forwarded → atOrAfter since e = false
  unsent : ∀ since, s.since = some since → ∀ e ∈ s.sinceOpen, e ∉ s.forwarded →
    atOrAfter since e = true

/-- The cursor is where the last line forwarded was logged. -/
theorem since_cases (logged : Logged s) (tracks : Tracks s) (idle : ¬s.Streaming) :
    s.since = none ∧ s.forwarded = [] ∨
      ∃ l, s.forwarded.getLast? = some l ∧ s.since = some (instant l + 1) := by
  rw [tracks.idle idle, tracks.resumed, lastSent]
  cases last : s.forwarded.getLast? with
  | none => exact .inl ⟨rfl, List.getLast?_eq_none_iff.mp last⟩
  | some l =>
    have stamped := tracks.stamped l (logged.forwarded l (List.mem_of_getLast? last))
    obtain ⟨ts, parsed⟩ := Option.ne_none_iff_exists'.mp stamped
    exact .inr ⟨l, rfl, by simp [instant, parsed]⟩

theorem atOrAfter_iff {e : LogEntry} (tracks : Tracks s) (member : e ∈ s.log) (ts : Int) :
    atOrAfter (ts + 1) e = true ↔ ts < instant e := by
  obtain ⟨te, parsed⟩ := Option.ne_none_iff_exists'.mp (tracks.stamped e member)
  have stamp : timeParse (HistoryLine.stamp e) = some te := parsed
  simp only [atOrAfter, stamp, instant, parsed, Option.getD_some, Bool.not_eq_true', decide_eq_false_iff_not]
  omega

theorem parts_of_divides (logged : Logged s) (tracks : Tracks s) (idle : ¬s.Streaming) (divides : s.Divides) :
    s.Parts := by
  rcases since_cases logged tracks idle with ⟨none, empty⟩ | ⟨l, last, cursor⟩
  · refine ⟨fun _ => divides.fresh empty, fun c some => ?_, fun c some => ?_⟩ <;>
      · rw [none] at some
        cases some
  · have named {c : Int} (same : s.since = some c) : instant l + 1 = c := Option.some.inj (cursor.symm.trans same)
    refine ⟨fun none => ?_, fun c same e kept inside sent => ?_, fun c same e inside unsent => ?_⟩
    · rw [cursor] at none
      cases none
    · rw [← named same, ← Bool.not_eq_true, atOrAfter_iff tracks (logged.forwarded e sent), not_lt]
      exact divides.sent l last e kept inside sent
    · rw [← named same, atOrAfter_iff tracks (s.sinceOpen_sublist.subset inside)]
      exact divides.unsent l last e inside unsent

/-! ## What a stream resumes with -/

theorem logged_openStream (logged : Logged s) (step : s.openStream = some t) : Logged t := by
  obtain ⟨-, coming, forwarded, log, -, opened⟩ := openStream_cases step
  constructor
  · exact log ▸ logged.nodup
  · rw [forwarded, log]
    exact logged.forwarded
  · rw [coming, log]
    exact replay_sublist s
  · intro n first
    rw [log]
    exact opened_follow logged (opened ▸ first)

theorem once_openStream (logged : Logged s) (once : s.Once) (divides : s.Parts)
    (step : s.openStream = some t) : t.Once := by
  obtain ⟨idle, coming, forwarded, -, since, -⟩ := openStream_cases step
  intro e member
  rw [since] at member
  rw [coming, forwarded]
  have before := once e member
  rw [coming_of_idle idle, List.count_nil] at before
  -- a replay has no line twice
  have single := List.nodup_iff_count_le_one.mp (logged.nodup.sublist (replay_sublist s)) e
  by_cases again : e ∈ s.replay
  · -- a line that is replayed was not forwarded
    obtain ⟨cursor, named, kept, after⟩ := mem_replay again
    have unsent : e ∉ s.forwarded := fun sent =>
      Bool.false_ne_true ((divides.sent cursor named e kept member sent).symm.trans after)
    rw [List.count_eq_zero.mpr unsent]
    omega
  · rw [List.count_eq_zero.mpr again]
    exact before

theorem mem_seen (idle : ¬s.Streaming) {e : LogEntry} :
    e ∈ s.seen ↔ e ∈ s.forwarded ∧ e ∈ s.sinceOpen := by
  rw [seen, coming_of_idle idle, List.append_nil, List.mem_filter, decide_eq_true_eq]

theorem not_forwarded {unsent : List LogEntry} (logged : Logged s) (idle : ¬s.Streaming)
    (parts : s.seen ++ unsent = s.sinceOpen) : ∀ e ∈ unsent, e ∉ s.forwarded := by
  intro e member forwarded
  have nodup := logged.nodup.sublist s.sinceOpen_sublist
  rw [← parts] at nodup
  have inside : e ∈ s.sinceOpen := by
    rw [← parts]
    exact List.mem_append_right _ member
  -- it would be in both parts of the lines since the open
  exact (List.nodup_append.mp nodup).2.2 e ((mem_seen idle).mpr ⟨forwarded, inside⟩) e member rfl

/-- The replay is what was logged since the first open attempt and not forwarded, and maybe lines
before that. -/
theorem filter_replay {since : Int} {n : Nat} {unsent : List LogEntry} (logged : Logged s)
    (divides : s.Parts) (cursor : s.since = some since) (first : s.firstOpen = some n)
    (idle : ¬s.Streaming) (parts : s.seen ++ unsent = s.sinceOpen)
    (brief : unsent.length ≤ resumeTailLines) :
    s.replay.filter (fun e => e ∈ s.sinceOpen) = unsent := by
  have since_eq : s.sinceOpen = s.log.drop n := by rw [sinceOpen, first]
  -- the log before the open, what was seen of the rest, and what was not
  have log : s.log.take n ++ s.seen ++ unsent = s.log := by
    rw [List.append_assoc, parts, since_eq, List.take_append_drop]
  have nodup := logged.nodup
  rw [← List.take_append_drop n s.log, ← since_eq] at nodup
  have apart := (List.nodup_append.mp nodup).2.2
  -- the tail is long enough for all that was not seen
  have kept := newest_append (s.log.take n ++ s.seen) brief
  rw [log] at kept
  rw [replay, cursor]
  dsimp only
  rw [kept, List.filter_append, List.filter_append]
  have old : ((newest (resumeTailLines - unsent.length) (s.log.take n ++ s.seen)).filter
      (atOrAfter since)).filter (fun e => e ∈ s.sinceOpen) = [] := by
    refine List.filter_eq_nil_iff.mpr fun e member inside => ?_
    have inside := of_decide_eq_true inside
    obtain ⟨member, after⟩ := List.mem_filter.mp member
    have forwarded : e ∈ s.forwarded := by
      rcases List.mem_append.mp ((newest_suffix _ _).subset member) with before | seen
      · exact absurd rfl (apart e before e inside)
      · exact ((mem_seen idle).mp seen).1
    have before := divides.sent since cursor e (by rw [kept]; exact List.mem_append_left _ member)
      inside forwarded
    exact Bool.false_ne_true (before.symm.trans after)
  have inside {e : LogEntry} (member : e ∈ unsent) : e ∈ s.sinceOpen := by
    rw [← parts]
    exact List.mem_append_right _ member
  have new : unsent.filter (atOrAfter since) = unsent := by
    exact List.filter_eq_self.mpr fun e member => divides.unsent since cursor e (inside member)
      (not_forwarded logged idle parts e member)
  rw [old, new, List.nil_append]
  exact List.filter_eq_self.mpr fun e member => decide_eq_true (inside member)

theorem gapless_openStream (logged : Logged s) (gapless : s.Gapless) (divides : s.Parts)
    (brief : s.Brief .openStream) (step : s.openStream = some t) : t.Gapless := by
  obtain ⟨idle, coming, forwarded, -, since, -⟩ := openStream_cases step
  cases cursor : s.since with
  | none => exact gapless_of_empty (since.trans (divides.fresh cursor))
  | some instant =>
    cases first : s.firstOpen with
    | none =>
      refine gapless_of_empty (since.trans ?_)
      rw [sinceOpen, first]
    | some n =>
      obtain ⟨unsent, parts⟩ := gapless.ahead
      have few : unsent.length ≤ resumeTailLines := by
        have waiting : unsent.filter (fun e => e ∉ s.forwarded) = unsent :=
          List.filter_eq_self.mpr fun e member =>
            decide_eq_true (not_forwarded logged idle parts e member)
        have count := brief
        rw [Brief, ← parts, List.filter_append, waiting, List.length_append] at count
        omega
      have rest := filter_replay logged divides cursor first idle parts few
      have all : t.seen = t.sinceOpen := by
        have before : s.seen = s.forwarded.filter fun e => e ∈ s.sinceOpen := by
          rw [seen, coming_of_idle idle, List.append_nil]
        rw [seen, since, forwarded, coming, List.filter_append, rest, ← before, parts]
      exact ⟨all ▸ List.prefix_refl _, fun _ => all⟩

/-! ## Runs -/

/-- What holds of a follower after every step. -/
structure Resumes (s : ServiceFollower) : Prop extends s.Logged where
  once : s.Once
  tracks : s.Tracks

/-- A stream opens only when none is open. -/
theorem parts_of_openStream (before : Resumes s) (orderly : s.Orderly .openStream) (step : s.openStream = some t) :
    s.Parts :=
  parts_of_divides before.toLogged before.tracks (openStream_cases step).1 orderly

theorem resumes_step {i : Step} (before : Resumes s) (orderly : s.Orderly i) (step : s.step i = some t) :
    Resumes t := by
  have tracks := tracks_step before.toLogged before.tracks step
  cases i with
  | log e => exact ⟨logged_logs before.toLogged step, once_logs before.toLogged before.once step, tracks⟩
  | openFails notFound =>
    obtain ⟨idles, opened⟩ := idles_openFails step
    exact ⟨logged_idle before.toLogged idles fun n first =>
      opened_follow before.toLogged (opened ▸ first), once_idle before.once idles, tracks⟩
  | openStream =>
    exact ⟨logged_openStream before.toLogged step,
      once_openStream before.toLogged before.once (parts_of_openStream before orderly step) step, tracks⟩
  | forward => exact ⟨logged_forward before.toLogged step, once_forward before.once step, tracks⟩
  | streamEnds =>
    obtain ⟨idles, opened⟩ := idles_streamEnds step
    exact ⟨logged_idle before.toLogged idles fun n first => before.opened n (opened ▸ first),
      once_idle before.once idles, tracks⟩

theorem gapless_step {i : Step} (before : Resumes s) (gapless : s.Gapless) (orderly : s.Orderly i)
    (brief : s.Brief i) (step : s.step i = some t) : t.Gapless := by
  cases i with
  | log e => exact gapless_logs before.toLogged gapless step
  | openFails notFound => exact gapless_idle gapless (idles_openFails step).1
  | openStream =>
    exact gapless_openStream before.toLogged gapless (parts_of_openStream before orderly step) brief step
  | forward => exact gapless_forward gapless step
  | streamEnds => exact gapless_idle gapless (idles_streamEnds step).1

end ServiceFollower

open ServiceFollower

/-- The follower of a service that has logged some lines, and has not opened a stream. -/
def newServiceFollower (log : List LogEntry) : ServiceFollower := { log }

theorem resumes_new {log : List LogEntry} (distinct : log.Nodup)
    (stamped : ∀ e ∈ log, timeParse e.timestamp ≠ none) : Resumes (newServiceFollower log) where
  nodup := distinct
  forwarded := nofun
  coming := List.nil_sublist _
  opened := nofun
  once := nofun
  tracks :=
    have first : (newServiceFollower log).resumed = none := by
      change (timeParse "").elim none _ = none
      rw [timeParse_empty]
      rfl
    ⟨stamped, first, fun _ => first.symm⟩

/-- Every line logged since the first open attempt is forwarded once at most; and with no more lines
waiting at an open than it resumes with, each was forwarded or is to come on the open stream. -/
theorem forwarded_once (log : List LogEntry) (distinct : log.Nodup)
    (stamped : ∀ e ∈ log, timeParse e.timestamp ≠ none) (steps : List Step)
    (orderly : Along step Orderly (newServiceFollower log) steps) (s : ServiceFollower)
    (run : exec step (newServiceFollower log) steps = some s) :
    (∀ e ∈ s.sinceOpen, s.forwarded.count e ≤ 1) ∧
      (Along step Brief (newServiceFollower log) steps → ∀ coming, s.phase = .streaming coming →
        ∀ e ∈ s.sinceOpen, e ∈ s.forwarded ∨ e ∈ coming) := by
  have start := resumes_new distinct stamped
  constructor
  · have resumes := exec_invariant (fun _ _ _ => resumes_step) start orderly run
    intro e member
    have := resumes.once e member
    omega
  · intro brief coming streaming e member
    have both : Along step (fun s i => s.Orderly i ∧ s.Brief i) (newServiceFollower log) steps :=
      orderly.and brief
    have gapless := (exec_invariant (p := fun s => Resumes s ∧ s.Gapless)
      (fun s i t before permitted step => ⟨resumes_step before.1 permitted.1 step,
        gapless_step before.1 before.2 permitted.1 permitted.2 step⟩)
      ⟨start, gapless_of_empty rfl⟩ both run).2
    rw [← gapless.streaming ⟨coming, streaming⟩, seen] at member
    have seen := List.mem_append.mp (List.mem_filter.mp member).1
    rwa [ServiceFollower.coming, streaming] at seen

def taskLine (timestamp : String) : LogEntry := { stream := "stdout", line := [], timestamp }

def earlier : LogEntry := taskLine "2024-01-15T10:00:00.000000001Z"

def later : LogEntry := taskLine "2024-01-15T10:00:00.000000002Z"

/-- A stream ends between two lines that are in order. -/
def orderedRun : List Step :=
  [.openStream, .log earlier, .forward, .streamEnds, .log later, .openStream]

/-- The second line is to come on the second stream. -/
theorem forwarded_once_ordered : ∃ s, exec step (newServiceFollower []) orderedRun = some s ∧
    (∀ e ∈ s.sinceOpen, s.forwarded.count e ≤ 1) ∧
      ∀ coming, s.phase = .streaming coming → ∀ e ∈ s.sinceOpen, e ∈ s.forwarded ∨ e ∈ coming := by
  have first : Divides (newServiceFollower []) := ⟨fun _ => rfl, nofun, nofun⟩
  have orderly : Along step Orderly (newServiceFollower []) orderedRun := by
    refine along_cons first rfl (along_cons trivial rfl (along_cons trivial rfl
      (along_cons trivial rfl (along_cons trivial rfl (along_cons ?_ rfl trivial)))))
    constructor
    · nofun
    · rintro _ ⟨⟩
      decide
    · rintro _ ⟨⟩
      decide
  have brief : Along step Brief (newServiceFollower []) orderedRun := by
    refine along_cons ?_ rfl (along_cons trivial rfl (along_cons trivial rfl
      (along_cons trivial rfl (along_cons trivial rfl (along_cons ?_ rfl trivial))))) <;> decide
  have once := forwarded_once [] List.nodup_nil nofun orderedRun orderly _ rfl
  exact ⟨_, rfl, once.1, once.2 brief⟩

/-- A line of one task is forwarded before an earlier line of another, so the cursor is behind it
and it is sent again. -/
theorem forwarded_twice :
    ¬∀ log : List LogEntry, log.Nodup → (∀ e ∈ log, timeParse e.timestamp ≠ none) → ∀ (steps : List Step) (s : ServiceFollower),
      exec step (newServiceFollower log) steps = some s →
        (∀ e ∈ s.sinceOpen, s.forwarded.count e ≤ 1) ∧
          (Along step Brief (newServiceFollower log) steps → ∀ coming, s.phase = .streaming coming →
            ∀ e ∈ s.sinceOpen, e ∈ s.forwarded ∨ e ∈ coming) := by
  intro all
  have once := (all [] List.nodup_nil nofun [.openStream, .log later, .log earlier, .forward, .forward,
    .streamEnds, .openStream, .forward] _ rfl).1 later (by decide)
  exact absurd once (by decide)

end Dockgraph.Api
