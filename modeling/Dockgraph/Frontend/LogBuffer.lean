import Dockgraph.Frontend.UseLogs
import Dockgraph.Library.Transition
import Mathlib.Tactic.ByContra

/-!
# The buffer is one run of the log

While it is attached, the buffer ends where the event source's batch begins, and the batch where the
server goes on. An older page that was asked for with another first line, and a stream that is opened
again after it delivered, break this.
-/
namespace Dockgraph.Frontend

open Transition

variable {τ : Type} [LinearOrder τ]

/-! ## Stamped logs -/

/-- Every line has a timestamp, and they increase. -/
structure Increasing (log : List (LogLine τ)) : Prop where
  stamped : ∀ l ∈ log, ∃ t, l.timestamp = some t
  sorted : log.Pairwise fun a b => ∀ s ∈ a.timestamp, ∀ t ∈ b.timestamp, s < t

theorem later_iff {log : List (LogLine τ)} {l : LogLine τ} : Logs.later log l = true ↔
    ∃ t, l.timestamp = some t ∧ ∀ k ∈ log, ∃ s, k.timestamp = some s ∧ s < t := by
  simp [Logs.later, Option.any_eq_true]

theorem Increasing.snoc {log : List (LogLine τ)} {l : LogLine τ} (increasing : Increasing log)
    (late : Logs.later log l = true) : Increasing (log ++ [l]) := by
  obtain ⟨t, stamp, all⟩ := later_iff.mp late
  constructor
  · intro k member
    rcases List.mem_append.mp member with old | new
    · exact increasing.stamped k old
    · exact ⟨t, List.mem_singleton.mp new ▸ stamp⟩
  · refine List.pairwise_append.mpr ⟨increasing.sorted, List.pairwise_singleton _ _, ?_⟩
    intro k member b new s first u last
    obtain ⟨s', stamped, less⟩ := all k member
    cases List.mem_singleton.mp new
    cases stamped.symm.trans first
    cases stamp.symm.trans last
    exact less

theorem Increasing.nodup {log : List (LogLine τ)} (increasing : Increasing log) : log.Nodup := by
  refine increasing.sorted.imp_of_mem fun {a b} listed _ less => ?_
  rintro rfl
  obtain ⟨t, stamp⟩ := increasing.stamped a listed
  exact lt_irrefl t (less t stamp t stamp)

section Parts

variable {before after : List (LogLine τ)} {l : LogLine τ} {t : τ}

theorem Increasing.lt_of_before (increasing : Increasing (before ++ l :: after))
    (stamp : l.timestamp = some t) : ∀ k ∈ before, ∃ s, k.timestamp = some s ∧ s < t := by
  intro k member
  obtain ⟨s, stamped⟩ := increasing.stamped k (List.mem_append_left _ member)
  exact ⟨s, stamped, (List.pairwise_append.mp increasing.sorted).2.2 k member l List.mem_cons_self s
    stamped t stamp⟩

theorem Increasing.lt_of_after (increasing : Increasing (before ++ l :: after))
    (stamp : l.timestamp = some t) : ∀ k ∈ after, ∃ s, k.timestamp = some s ∧ t < s := by
  intro k member
  obtain ⟨s, stamped⟩ :=
    increasing.stamped k (List.mem_append_right _ (List.mem_cons_of_mem _ member))
  have rest := (List.pairwise_append.mp increasing.sorted).2.1
  exact ⟨s, stamped, (List.pairwise_cons.mp rest).1 k member t stamp s stamped⟩

/-- The lines older than a line are the ones before it. -/
theorem Increasing.filter_older (increasing : Increasing (before ++ l :: after))
    (stamp : l.timestamp = some t) :
    (before ++ l :: after).filter (fun k => k.timestamp.any fun s => s < t) = before := by
  have older : before.filter (fun k => k.timestamp.any fun s => s < t) = before := by
    refine List.filter_eq_self.mpr fun k member => ?_
    obtain ⟨s, stamped, less⟩ := increasing.lt_of_before stamp k member
    simp [stamped, less]
  have newer : (l :: after).filter (fun k => k.timestamp.any fun s => s < t) = [] := by
    refine List.filter_eq_nil_iff.mpr fun k member => ?_
    rcases List.mem_cons.mp member with rfl | late
    · simp [stamp]
    · obtain ⟨s, stamped, less⟩ := increasing.lt_of_after stamp k late
      simp [stamped, less.le]
  rw [List.filter_append, older, newer, List.append_nil]

/-- A stream since a line starts right after it. -/
theorem Increasing.startAt_eq (increasing : Increasing (before ++ l :: after))
    (stamp : l.timestamp = some t) (n : Nat) :
    Logs.startAt (before ++ l :: after) (some t) n = (before ++ [l]).length := by
  have upTo : ∀ k ∈ before ++ [l], (k.timestamp.all fun s => s ≤ t) = true := by
    intro k member
    rcases List.mem_append.mp member with early | last
    · obtain ⟨s, stamped, less⟩ := increasing.lt_of_before stamp k early
      simp [stamped, less.le]
    · simp [List.mem_singleton.mp last, stamp]
  have past : after.takeWhile (fun k => k.timestamp.all fun s => s ≤ t) = [] := by
    cases after with
    | nil => rfl
    | cons k after =>
      obtain ⟨s, stamped, less⟩ := increasing.lt_of_after stamp k List.mem_cons_self
      simp [stamped, less]
  unfold Logs.startAt
  dsimp only
  rw [List.append_cons, List.takeWhile_append_of_pos upTo, past, List.append_nil]

end Parts

/-! ## The invariant -/

namespace Logs

/-- An answer is one run of the log: the newest lines that were asked for. -/
def Served (log : List (LogLine τ)) : Query τ → List (LogLine τ) → Prop
  | .older oldest, fetched =>
    fetched <:+ log.filter fun l => l.timestamp.any fun t => t < oldest
  | .initial, fetched | .newer, fetched => fetched <:+: log

/-- What the source has received is in the buffer and its batch, up to where it goes on. -/
def Fed (v : Logs τ) (s : EventSource τ) : Prop :=
  ∃ before rest, v.log = before ++ v.lines ++ s.batch ++ rest ∧
    (∀ p, s.position = some p → p = (before ++ v.lines ++ s.batch).length) ∧
    (s.received = 0 → s.batch = [] ∧ s.since = v.lines.getLast?.bind LogLine.timestamp)

structure Sound (cfg : LogsConfig τ) (v : Logs τ) : Prop where
  increasing : Increasing v.log
  run : v.lines <:+: v.log
  short : v.lines.length ≤ max cfg.bufferSize cfg.pageSize
  served : ∀ r ∈ v.requests, ∀ fetched, r.fetched = some fetched →
    Served v.log r.query fetched ∧ fetched.length ≤ cfg.pageSize
  cursors : ∀ r ∈ v.requests, ∀ oldest, r.query = .older oldest →
    ∃ l ∈ v.log, l.timestamp = some oldest
  fed : v.detached = false → ∀ s, v.source = some s → v.Fed s
  first : ∀ r ∈ v.requests, r.query = .initial →
    v.lines = [] ∧ v.source = none ∧ v.detached = false ∧ v.requests = [r]

/-- An older page fits in front of the buffer. -/
def Fits (cfg : LogsConfig τ) (v : Logs τ) (oldest : τ) (fetched : List (LogLine τ)) : Prop :=
  v.newLines cfg (olderLines oldest fetched) = [] ∨
    (v.lines.head?.bind LogLine.timestamp = some oldest ∧
      v.newLines cfg (olderLines oldest fetched) = olderLines oldest fetched)

/-- Older pages fit, and a stream is not opened again on an attached buffer once it delivered. -/
def Ordered (cfg : LogsConfig τ) (v : Logs τ) : Step τ → Prop
  | .respond i => ∀ oldest fetched, v.requests[i]? = some ⟨.older oldest, some fetched⟩ →
      v.Fits cfg oldest fetched
  | .connect _ => v.detached = true ∨ ∀ s, v.source = some s → s.received = 0
  | _ => True

variable {cfg : LogsConfig τ} {v w : Logs τ}

/-! ## What a step preserves -/

/-- The flags and the reader's place say nothing about the buffer. -/
theorem Sound.congr (sound : Sound cfg v) (log : w.log = v.log) (lines : w.lines = v.lines)
    (source : w.source = v.source) (detached : w.detached = v.detached)
    (requests : w.requests = v.requests) : Sound cfg w := by
  cases v
  cases w
  subst log lines source detached requests
  exact ⟨sound.increasing, sound.run, sound.short, sound.served, sound.cursors, sound.fed, sound.first⟩

theorem sound_log {l : LogLine τ} (sound : Sound cfg v) (late : later v.log l = true) :
    Sound cfg { v with log := v.log ++ [l] } where
  increasing := sound.increasing.snoc late
  run := List.infix_append_of_infix_left sound.run
  short := sound.short
  served r member fetched answer := by
    obtain ⟨served, short⟩ := sound.served r member fetched answer
    refine ⟨?_, short⟩
    dsimp only
    cases query : r.query with
    | initial =>
      rw [query] at served
      exact List.infix_append_of_infix_left served
    | newer =>
      rw [query] at served
      exact List.infix_append_of_infix_left served
    | older oldest =>
      -- the new line is not older than a line of the log
      obtain ⟨k, listed, stamp⟩ := sound.cursors r member oldest query
      obtain ⟨t, stamped, all⟩ := later_iff.mp late
      obtain ⟨s, same, less⟩ := all k listed
      cases stamp.symm.trans same
      rw [query] at served
      simpa [Served, List.filter_append, stamped, less.le] using served
  cursors r member oldest query := by
    obtain ⟨k, listed, stamp⟩ := sound.cursors r member oldest query
    exact ⟨k, List.mem_append_left _ listed, stamp⟩
  fed attached s source := by
    obtain ⟨before, rest, parts, position, fresh⟩ := sound.fed attached s source
    refine ⟨before, rest ++ [l], ?_, position, fresh⟩
    dsimp only
    rw [parts, List.append_assoc _ rest]
  first := sound.first

theorem sound_loadMore (sound : Sound cfg v) : Sound cfg v.loadMore := by
  unfold loadMore
  split
  · exact sound
  · split
    · exact sound.congr rfl rfl rfl rfl rfl
    next oldest head =>
      obtain ⟨l, first, stamp⟩ := Option.bind_eq_some_iff.mp head
      have listed : l ∈ v.lines := List.mem_of_head? first
      refine ⟨sound.increasing, sound.run, sound.short, ?_, ?_, sound.fed, ?_⟩
      · intro r member fetched answer
        rcases List.mem_append.mp member with old | new
        · exact sound.served r old fetched answer
        · cases List.mem_singleton.mp new
          cases answer
      -- the cursor is the stamp of a line in the log
      · intro r member t query
        rcases List.mem_append.mp member with old | new
        · exact sound.cursors r old t query
        · cases List.mem_singleton.mp new
          cases query
          exact ⟨l, sound.run.subset listed, stamp⟩
      · intro r member query
        rcases List.mem_append.mp member with old | new
        -- while the initial request is under way the buffer is empty
        · have empty := (sound.first r old query).1
          rw [empty] at listed
          cases listed
        · cases List.mem_singleton.mp new
          cases query

theorem sound_loadNewer (sound : Sound cfg v) : Sound cfg v.loadNewer := by
  unfold loadNewer
  split
  · exact sound
  next free =>
    -- the newest page is asked for by a detached buffer only
    have detached : v.detached = true := by
      by_contra attached
      exact free (.inr attached)
    -- the aborted requests go, the others stay as they were
    have kept {r : HistoryRequest τ} {p : HistoryRequest τ → Bool} (member : r ∈ v.requests.filter p) :
        r ∈ v.requests := (List.mem_filter.mp member).1
    refine ⟨sound.increasing, sound.run, sound.short, ?_, ?_, sound.fed, ?_⟩
    · intro r member fetched answer
      rcases List.mem_append.mp member with old | new
      · exact sound.served r (kept old) fetched answer
      · cases List.mem_singleton.mp new
        cases answer
    · intro r member oldest query
      rcases List.mem_append.mp member with old | new
      · exact sound.cursors r (kept old) oldest query
      · cases List.mem_singleton.mp new
        cases query
    · intro r member query
      rcases List.mem_append.mp member with old | new
      -- an initial request would find the buffer attached
      · have attached := (sound.first r (kept old) query).2.2.1
        rw [detached] at attached
        cases attached
      · cases List.mem_singleton.mp new
        cases query

theorem served_page (log : List (LogLine τ)) (query : Query τ) (n : Nat) :
    Served log query (page log query n) := by
  cases query with
  | initial => exact (List.drop_suffix _ _).isInfix
  | newer => exact (List.drop_suffix _ _).isInfix
  | older oldest => exact List.drop_suffix _ _

theorem length_page_le (log : List (LogLine τ)) (query : Query τ) (n : Nat) :
    (page log query n).length ≤ n := by
  have rtake (lines : List (LogLine τ)) : (lines.rtake n).length ≤ n := by
    rw [List.rtake, List.length_drop]
    omega
  cases query with
  | initial => exact rtake _
  | newer => exact rtake _
  | older oldest => exact rtake _

theorem sound_serve {i n : Nat} (sound : Sound cfg v) (next : v.serve cfg i n = some w) :
    Sound cfg w := by
  unfold serve at next
  split at next
  next query found =>
    obtain ⟨small, made⟩ := Option.ite_none_right_eq_some.mp next
    cases made
    have asked : ⟨query, none⟩ ∈ v.requests := List.mem_of_getElem? found
    refine ⟨sound.increasing, sound.run, sound.short, ?_, ?_, sound.fed, ?_⟩
    · intro r member fetched answer
      rcases List.mem_or_eq_of_mem_set member with old | rfl
      · exact sound.served r old fetched answer
      -- the answer is the page of the log as it is now
      · cases answer
        exact ⟨served_page v.log query n, (length_page_le v.log query n).trans small⟩
    · intro r member oldest query
      rcases List.mem_or_eq_of_mem_set member with old | rfl
      · exact sound.cursors r old oldest query
      · exact sound.cursors _ asked oldest query
    · intro r member initial
      -- an initial request is the only one
      have alone : v.lines = [] ∧ v.source = none ∧ v.detached = false ∧ v.requests.length = 1 := by
        rcases List.mem_or_eq_of_mem_set member with old | rfl
        · obtain ⟨lines, source, attached, only⟩ := sound.first r old initial
          exact ⟨lines, source, attached, by rw [only]; rfl⟩
        · obtain ⟨lines, source, attached, only⟩ := sound.first _ asked initial
          exact ⟨lines, source, attached, by rw [only]; rfl⟩
      obtain ⟨lines, source, attached, single⟩ := alone
      refine ⟨lines, source, attached, ?_⟩
      obtain ⟨x, only⟩ := List.length_eq_one_iff.mp
        ((List.length_set (a := ⟨query, some (page v.log query n)⟩) (i := i)).trans single)
      dsimp only at member ⊢
      rw [only] at member ⊢
      rw [List.mem_singleton.mp member]
  · cases next

/-! ## Answers are taken up -/

/-- With one request less: an initial one would have been the only one. -/
theorem sound_erase {i : Nat} {q : HistoryRequest τ} (sound : Sound cfg v)
    (found : v.requests[i]? = some q) :
    Sound cfg { v with requests := v.requests.eraseIdx i } ∧
      ∀ r ∈ v.requests.eraseIdx i, r.query ≠ .initial := by
  have others : ∀ r ∈ v.requests.eraseIdx i, r.query ≠ .initial := by
    intro r member initial
    -- it would be alone, and then none is left
    have only := (sound.first r (List.mem_of_mem_eraseIdx member) initial).2.2.2
    obtain ⟨bound, -⟩ := List.getElem?_eq_some_iff.mp found
    have size := List.length_eraseIdx_of_lt bound
    have positive := List.length_pos_of_mem member
    rw [only] at bound size
    rw [only] at positive
    simp only [List.length_singleton] at size
    omega
  refine ⟨⟨sound.increasing, sound.run, sound.short, ?_, ?_, sound.fed, ?_⟩, others⟩
  · exact fun r member => sound.served r (List.mem_of_mem_eraseIdx member)
  · exact fun r member => sound.cursors r (List.mem_of_mem_eraseIdx member)
  · exact fun r member initial => absurd initial (others r member)

/-- Another buffer, once the initial request is over. -/
theorem Sound.replace (sound : Sound cfg v) (later : ∀ r ∈ v.requests, r.query ≠ .initial)
    (log : w.log = v.log) (requests : w.requests = v.requests) (run : w.lines <:+: v.log)
    (short : w.lines.length ≤ max cfg.bufferSize cfg.pageSize)
    (fed : w.detached = false → ∀ s, w.source = some s → w.Fed s) : Sound cfg w := by
  refine ⟨log ▸ sound.increasing, log ▸ run, short, ?_, ?_, fed, ?_⟩
  · rw [log, requests]
    exact sound.served
  · rw [log, requests]
    exact sound.cursors
  · rw [requests]
    exact fun r member initial => absurd initial (later r member)

theorem sound_showLatest {fetched : List (LogLine τ)} (sound : Sound cfg v)
    (later : ∀ r ∈ v.requests, r.query ≠ .initial) (closed : v.source = none)
    (run : fetched <:+: v.log) (short : fetched.length ≤ cfg.pageSize) :
    Sound cfg (v.showLatest cfg fetched) := by
  have length : fetched.length ≤ max cfg.bufferSize cfg.pageSize := short.trans (le_max_right _ _)
  unfold showLatest openSSE
  dsimp only
  split
  · refine sound.replace later rfl rfl run length fun _ s opened => ?_
    cases opened
    obtain ⟨before, rest, parts⟩ := run
    -- the new stream goes on right after the last line shown
    exact ⟨before, rest, by simp [← parts], nofun, fun _ => ⟨rfl, rfl⟩⟩
  · exact sound.replace later rfl rfl run length fun _ s opened => nomatch closed.symm.trans opened

/-- A page that was asked for in front of the first line ends right before it. -/
theorem before_eq_of_served {before rest tail : List (LogLine τ)} {l : LogLine τ} {oldest : τ}
    {fetched : List (LogLine τ)} (increasing : Increasing (before ++ l :: tail ++ rest))
    (stamp : l.timestamp = some oldest)
    (served : Served (before ++ l :: tail ++ rest) (.older oldest) fetched) :
    fetched <:+ before := by
  rw [List.append_assoc, List.cons_append] at increasing served
  rwa [Served, increasing.filter_older stamp] at served

theorem olderLines_of_served {log : List (LogLine τ)} {oldest : τ} {fetched : List (LogLine τ)}
    (served : Served log (.older oldest) fetched) : olderLines oldest fetched = fetched := by
  refine List.filter_eq_self.mpr fun k member => ?_
  have older := (List.mem_filter.mp (served.subset member)).2
  obtain ⟨t, stamped, less⟩ := (Option.any_eq_true _ _).mp older
  simpa [stamped] using less

theorem prepend_run {oldest : τ} {fetched : List (LogLine τ)} (sound : Sound cfg v)
    (served : Served v.log (.older oldest) fetched)
    (head : v.lines.head?.bind LogLine.timestamp = some oldest) : fetched ++ v.lines <:+: v.log := by
  obtain ⟨l, first, stamp⟩ := Option.bind_eq_some_iff.mp head
  obtain ⟨tail, lines⟩ := List.head?_eq_some_iff.mp first
  obtain ⟨before, rest, parts⟩ := sound.run
  have increasing := sound.increasing
  rw [← parts, lines] at increasing served
  -- the page ends where the buffer begins
  obtain ⟨earlier, same⟩ := before_eq_of_served increasing stamp served
  exact ⟨earlier, rest, by rw [← parts, ← same]; simp⟩

/-- An older page in front of the lines leaves their end where it was. -/
theorem prepend_fed {oldest : τ} {fetched : List (LogLine τ)} {s : EventSource τ}
    (increasing : Increasing v.log) (served : Served v.log (.older oldest) fetched)
    (head : v.lines.head?.bind LogLine.timestamp = some oldest) (fed : v.Fed s) :
    Fed { v with lines := fetched ++ v.lines } s := by
  obtain ⟨l, first, stamp⟩ := Option.bind_eq_some_iff.mp head
  obtain ⟨tail, lines⟩ := List.head?_eq_some_iff.mp first
  obtain ⟨before, rest, parts, position, fresh⟩ := fed
  -- the same cut of the log as for the buffer alone
  rw [parts, List.append_assoc _ s.batch, lines] at increasing served
  obtain ⟨earlier, same⟩ := before_eq_of_served increasing stamp served
  refine ⟨earlier, rest, ?_, ?_, ?_⟩
  · rw [parts, ← same]
    simp
  · intro p at_
    rw [position p at_, ← same]
    simp
  · intro none
    obtain ⟨empty, since⟩ := fresh none
    refine ⟨empty, ?_⟩
    rw [since, lines, List.getLast?_append_of_ne_nil _ (List.cons_ne_nil l tail)]

theorem sound_showOlder {oldest : τ} {fetched : List (LogLine τ)} (sound : Sound cfg v)
    (later : ∀ r ∈ v.requests, r.query ≠ .initial)
    (served : Served v.log (.older oldest) fetched) (fits : v.Fits cfg oldest fetched) :
    Sound cfg (v.showOlder cfg oldest fetched) := by
  unfold showOlder
  dsimp only
  split
  · exact sound.congr rfl rfl rfl rfl rfl
  · split
    · exact sound.congr rfl rfl rfl rfl rfl
    next present =>
      -- a page that brings lines fits in front of the buffer
      have fitting : v.lines.head?.bind LogLine.timestamp = some oldest ∧
          v.newLines cfg (olderLines oldest fetched) = fetched := by
        rcases fits with none | ⟨head, all⟩
        · rw [none] at present
          exact absurd rfl present
        · exact ⟨head, all.trans (olderLines_of_served served)⟩
      obtain ⟨head, all⟩ := fitting
      have run := prepend_run sound served head
      rw [all]
      split
      next past =>
        -- the buffer ends earlier now, and is detached
        have cut : ((fetched ++ v.lines).take cfg.bufferSize).length ≤ max cfg.bufferSize cfg.pageSize :=
          (List.length_take_le _ _).trans (le_max_left _ _)
        exact sound.replace later rfl rfl ((List.take_prefix _ _).isInfix.trans run) cut nofun
      next under =>
        refine sound.replace later rfl rfl run ((not_lt.mp under).trans (le_max_left _ _)) ?_
        exact fun attached s source =>
          prepend_fed sound.increasing served head (sound.fed attached s source)

theorem sound_respond {i : Nat} (sound : Sound cfg v) (ordered : v.Ordered cfg (.respond i))
    (next : v.respond cfg i = some w) : Sound cfg w := by
  unfold respond at next
  split at next
  next query fetched found =>
    obtain ⟨erased, later⟩ := sound_erase sound found
    have asked : ⟨query, some fetched⟩ ∈ v.requests := List.mem_of_getElem? found
    obtain ⟨served, short⟩ := sound.served _ asked fetched rfl
    -- one case for each question
    cases query with
    | initial =>
      cases next
      exact sound_showLatest erased later (sound.first _ asked rfl).2.1 served short
    | older oldest =>
      cases next
      exact sound_showOlder erased later served (ordered oldest fetched found)
    | newer =>
      cases next
      -- closed first, then the newest lines
      have closed : Sound cfg { v with requests := v.requests.eraseIdx i, source := none } :=
        erased.replace later rfl rfl erased.run erased.short fun _ _ => nofun
      exact (sound_showLatest closed later rfl served short).congr rfl rfl rfl rfl rfl
  · cases next

theorem sound_fail {i : Nat} (sound : Sound cfg v) (next : v.fail cfg i = some w) : Sound cfg w := by
  unfold fail at next
  split at next
  · cases next
  next r found =>
    obtain ⟨erased, later⟩ := sound_erase sound found
    dsimp only at next
    split at next
    next query =>
      cases next
      obtain ⟨lines, -⟩ := sound.first r (List.mem_of_getElem? found) query
      split
      · -- the stream alone, from wherever the server starts
        refine erased.replace later rfl rfl erased.run erased.short fun _ s opened => ?_
        cases opened
        exact ⟨v.log, [], by simp [openSSE, lines], nofun, fun _ => ⟨rfl, by simp [openSSE, lines]⟩⟩
      · exact erased
    · cases next
      exact erased.congr rfl rfl rfl rfl rfl
    · cases next
      exact erased.congr rfl rfl rfl rfl rfl

/-! ## The event source -/

/-- Only the source changes, and it is fed while the buffer is attached. -/
theorem Sound.source {s t : EventSource τ} (sound : Sound cfg v) (source : v.source = some s)
    (fed : v.detached = false → Fed { v with source := some t } t) :
    Sound cfg { v with source := some t } := by
  refine ⟨sound.increasing, sound.run, sound.short, sound.served, sound.cursors, ?_, ?_⟩
  · intro attached u same
    cases same
    exact fed attached
  · intro r member initial
    cases source.symm.trans (sound.first r member initial).2.1

theorem sound_connect {n : Nat} (sound : Sound cfg v) (ordered : v.Ordered cfg (.connect n))
    (next : v.connect n = some w) : Sound cfg w := by
  unfold connect at next
  split at next
  next since batch received source =>
    cases next
    refine sound.source source fun attached => ?_
    -- a source that delivered is opened again on a detached buffer only
    have none : received = 0 := by
      rcases ordered with detached | unread
      · cases attached.symm.trans detached
      · exact unread _ source
    obtain ⟨before, rest, parts, -, fresh⟩ := sound.fed attached _ source
    obtain ⟨empty, from_⟩ := fresh none
    dsimp only at empty from_ parts
    cases last : v.lines.getLast? with
    | none =>
      -- an empty buffer takes whatever the server starts with
      have lines := List.getLast?_eq_none_iff.mp last
      rw [last, Option.bind_none] at from_
      refine ⟨v.log.take n, v.log.drop n, ?_, ?_, fun _ => ⟨empty, by rw [from_, last]; rfl⟩⟩
      · simp [lines, empty]
      · intro p at_
        cases at_
        simp [from_, startAt, lines, empty]
    | some l =>
      obtain ⟨init, lines⟩ := List.getLast?_eq_some_iff.mp last
      have increasing := sound.increasing
      have whole : v.log = (before ++ init) ++ l :: rest := by
        rw [parts, lines, empty]
        simp
      obtain ⟨t, stamp⟩ := increasing.stamped l (by rw [whole]; simp)
      rw [last, Option.bind_some, stamp] at from_
      rw [whole] at increasing
      -- the server goes on right after the last line of the buffer
      refine ⟨before, rest, parts, ?_, fun _ => ⟨empty, by rw [from_, last, Option.bind_some, stamp]⟩⟩
      intro p at_
      cases at_
      rw [from_, whole, increasing.startAt_eq stamp, lines, empty]
      simp
  · cases next

theorem sound_message (sound : Sound cfg v) (next : v.message = some w) : Sound cfg w := by
  unfold message at next
  split at next
  next since position batch received source =>
    split at next
    · cases next
    next l sent =>
      cases next
      refine sound.source source fun attached => ?_
      obtain ⟨before, rest, parts, reached, -⟩ := sound.fed attached _ source
      have at_ := reached position rfl
      dsimp only at parts at_
      -- the position is where the rest of the log begins
      rw [parts, at_, List.getElem?_append_right (le_refl _), Nat.sub_self, ← List.head?_eq_getElem?] at sent
      obtain ⟨rest', rfl⟩ := List.head?_eq_some_iff.mp sent
      refine ⟨before, rest', by rw [parts]; simp, ?_, nofun⟩
      intro p same
      cases same
      rw [at_]
      simp [Nat.add_assoc]
  · cases next

theorem sound_disconnect (sound : Sound cfg v) :
    Sound cfg { v with source := v.source.map fun s => { s with position := none } } := by
  cases source : v.source with
  | none => exact sound.congr rfl rfl source.symm rfl rfl
  | some s =>
    refine sound.source source fun attached => ?_
    obtain ⟨before, rest, parts, -, fresh⟩ := sound.fed attached s source
    exact ⟨before, rest, parts, nofun, fresh⟩

/-- The newest lines, as many as the buffer may have. -/
def newest (cfg : LogsConfig τ) (buf : List (LogLine τ)) : List (LogLine τ) :=
  if buf.length > cfg.bufferSize then buf.drop (buf.length - cfg.bufferSize) else buf

omit [LinearOrder τ] in
theorem newest_suffix (cfg : LogsConfig τ) (buf : List (LogLine τ)) : newest cfg buf <:+ buf := by
  unfold newest
  split
  · exact List.drop_suffix _ _
  · exact List.suffix_refl _

omit [LinearOrder τ] in
theorem flushed_length (cfg : LogsConfig τ) (buf : List (LogLine τ)) :
    (newest cfg buf).length ≤ max cfg.bufferSize cfg.pageSize := by
  refine le_trans ?_ (le_max_left _ _)
  unfold newest
  split
  · rw [List.length_drop]
    omega
  next under => exact not_lt.mp under

omit [LinearOrder τ] in
theorem flushed_run {s : EventSource τ} (fed : v.Fed s) : newest cfg (v.lines ++ s.batch) <:+: v.log := by
  obtain ⟨before, rest, parts, -, -⟩ := fed
  refine (newest_suffix cfg _).isInfix.trans ⟨before, rest, ?_⟩
  rw [parts, List.append_assoc before v.lines]

omit [LinearOrder τ] in
/-- The batch goes to the end of the buffer, and what is cut off the front is before it. -/
theorem flushed_fed {s : EventSource τ} (fed : v.Fed s) (filled : ¬s.batch.length = 0) :
    Fed { v with source := some { s with batch := [] }, lines := newest cfg (v.lines ++ s.batch) }
      { s with batch := [] } := by
  obtain ⟨before, rest, parts, position, fresh⟩ := fed
  obtain ⟨cut, same⟩ := newest_suffix cfg (v.lines ++ s.batch)
  -- the cut goes to what is before the buffer
  have whole : before ++ cut ++ newest cfg (v.lines ++ s.batch) ++ [] = before ++ v.lines ++ s.batch := by
    rw [List.append_nil, List.append_assoc, same, List.append_assoc]
  refine ⟨before ++ cut, rest, ?_, ?_, ?_⟩
  · dsimp only
    rw [whole, parts]
  · intro p at_
    dsimp only
    rw [whole, position p at_]
  · intro none
    exact absurd (congrArg List.length (fresh none).1) filled

theorem sound_flush (sound : Sound cfg v) : Sound cfg (v.flush cfg) := by
  unfold flush
  split
  · exact sound
  next s source =>
    dsimp only
    split
    · exact sound
    next filled =>
      -- the source is opened after the initial request is over
      have later : ∀ r ∈ v.requests, r.query ≠ .initial := fun r member initial =>
        nomatch source.symm.trans (sound.first r member initial).2.1
      split
      next detached =>
        exact sound.replace later rfl rfl sound.run sound.short fun attached =>
          nomatch detached.symm.trans attached
      next attached =>
        split
        · exact sound.replace later rfl rfl sound.run sound.short nofun
        · have fed := sound.fed (Bool.not_eq_true _ ▸ attached) s source
          exact sound.replace later rfl rfl (flushed_run fed) (flushed_length cfg _) fun _ t same => by
            cases same
            exact flushed_fed fed filled

/-! ## Runs -/

theorem sound_step {i : Step τ} (sound : Sound cfg v) (ordered : v.Ordered cfg i)
    (next : v.step cfg i = some w) : Sound cfg w := by
  cases i with
  | log l =>
    obtain ⟨late, made⟩ := Option.ite_none_right_eq_some.mp next
    cases made
    exact sound_log sound late
  | render =>
    cases next
    exact sound.congr rfl rfl rfl rfl rfl
  | follow following =>
    cases next
    exact sound.congr rfl rfl rfl rfl rfl
  | loadMore =>
    cases next
    exact sound_loadMore sound
  | loadNewer =>
    cases next
    exact sound_loadNewer sound
  | serve i n => exact sound_serve sound next
  | respond i => exact sound_respond sound ordered next
  | fail i => exact sound_fail sound next
  | connect n => exact sound_connect sound ordered next
  | disconnect =>
    cases next
    exact sound_disconnect sound
  | message => exact sound_message sound next
  | flush =>
    cases next
    exact sound_flush sound

theorem sound_start {log : List (LogLine τ)} (increasing : Increasing log) :
    Sound cfg ({ log } : Logs τ) where
  increasing := increasing
  run := List.nil_infix
  short := Nat.zero_le _
  served r member fetched answer := by
    cases List.mem_singleton.mp member
    cases answer
  cursors r member oldest query := by
    cases List.mem_singleton.mp member
    cases query
  fed _ _ source := nomatch source
  first r member _ := ⟨rfl, rfl, rfl, by rw [List.mem_singleton.mp member]⟩

/-- The buffer is a run of the log in order, without a hole, and no line is in it twice. -/
def Contiguous (v : Logs τ) : Prop := v.lines <:+: v.log ∧ v.lines.Nodup

theorem lines_contiguous {log : List (LogLine τ)} {steps : List (Step τ)}
    (increasing : Increasing log) (ordered : Along (step cfg) (Ordered cfg) { log } steps)
    (run : exec (step cfg) { log } steps = some v) :
    v.Contiguous ∧ v.lines.length ≤ max cfg.bufferSize cfg.pageSize := by
  have sound := exec_invariant (p := Sound cfg) (fun _ _ _ sound ordered next =>
    sound_step sound ordered next) (sound_start increasing) ordered run
  exact ⟨⟨sound.run, sound.increasing.nodup.sublist sound.run.sublist⟩, sound.short⟩

def numbered (n : Nat) : LogLine Nat := { text := "", timestamp := some n }

/-- The first page, and a line from the stream. -/
def tailed : List (Step Nat) :=
  [.serve 0 200, .respond 0, .connect 0, .log (numbered 2), .message, .flush]

theorem increasing_single (n : Nat) : Increasing [numbered n] where
  stamped l member := ⟨n, by rw [List.mem_singleton.mp member]; rfl⟩
  sorted := List.pairwise_singleton _ _

theorem lines_contiguous_tailed : ∃ v, exec (step {}) { log := [numbered 1] } tailed = some v ∧
    v.Contiguous ∧ v.lines.length ≤ max 2000 200 := by
  refine ⟨_, rfl, @lines_contiguous Nat _ {} _ _ tailed (increasing_single 1) ?_ rfl⟩
  refine along_cons trivial rfl (along_cons ?_ rfl (along_cons (.inr ?_) rfl (along_cons trivial rfl
    (along_cons trivial rfl (along_cons trivial rfl trivial)))))
  · intro oldest fetched found
    cases found
  · intro s source
    cases source
    rfl

/-- The connection is lost after the line, and the source opens its URL again. -/
def reconnected : List (Step Nat) := tailed ++ [.disconnect, .connect 0, .message, .flush]

theorem reconnected_twice : ¬∀ (cfg : LogsConfig Nat) (log : List (LogLine Nat)) (steps : List (Step Nat))
    (v : Logs Nat), Increasing log → exec (step cfg) { log } steps = some v →
    v.Contiguous ∧ v.lines.length ≤ max cfg.bufferSize cfg.pageSize := by
  intro claimed
  -- the second connection starts from the same `since` and sends line 2 again
  have once := (claimed {} [numbered 1] reconnected _ (increasing_single 1) rfl).1.2
  exact absurd once (by decide)

end Logs

end Dockgraph.Frontend
