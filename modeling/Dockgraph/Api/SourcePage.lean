import Dockgraph.Api.LogLines

/-!
# A page of one container

Docker sends a container's newest lines up to the cursor, and the page leaves out the line at it.
Unless the byte budget, with that line counted, cuts the page too short to tell, a page that is not
everything is full or within one line of the budget.
-/
namespace Dockgraph.Api

open Timestamp Suffix

/-- What Docker sends of a container's log: `Until` is inclusive, `Tail` counts the newest lines. -/
def dockerLogs (lines : List LogEntry) (opts : LogsOptions) : List LogEntry :=
  match timeParse opts.until_ with
  | none => newest opts.tail lines
  | some cut => newest opts.tail (lines.filter fun l =>
      match timeParse l.timestamp with
      | none => true
      | some ts => ts ≤ cut)

/-- A container with a fixed log, as Docker stamps it. -/
structure Container where
  name : String
  lines : List LogEntry
  fixedWidth : ∀ l ∈ lines, ∃ t : Stamp, l.timestamp = t.text
  ascending : lines.Pairwise fun a b => a.timestamp < b.timestamp
  bounded : ∀ l ∈ lines, size l ≤ maxLogLineSize

def Container.source (c : Container) : LogSource where
  name := c.name
  opener := dockerLogs c.lines
  service := false

/-- No cursor, or the timestamp of a line. -/
def Cursor (before : String) : Prop := before = "" ∨ ∃ t : Stamp, before = t.text

/-- The line is older than the cursor. -/
def older (before : String) (l : LogEntry) : Bool := before = "" ∨ l.timestamp < before

/-- The lines a page may still return. -/
def Container.eligible (c : Container) (before : String) : List LogEntry :=
  c.lines.filter (older before)

/-! ## A cut page -/

/-- A page of the lines, newest last: all of them, or full, or within one line of the budget. -/
structure PageOf (limit : Nat) (lines page : List LogEntry) : Prop where
  suffix : page <:+ lines
  some : lines ≠ [] → page ≠ []
  short : page.length ≤ limit
  cut : page ≠ lines → limit ≤ page.length ∨ maxHistoryPageBytes - maxLogLineSize < pageSize page

theorem line_lt_page : 2 * maxLogLineSize ≤ maxHistoryPageBytes := by decide

theorem fits_single (l : LogEntry) : Fits maxHistoryPageBytes [l] := .inl (le_refl 1)

/-- What a byte cut leaves out in front of a page does not fit. -/
theorem overflow {lines page : List LogEntry} {l : LogEntry} {pre : List LogEntry}
    (cut : lines = pre ++ l :: page)
    (kept : longestSuffix (Fits maxHistoryPageBytes) lines = page) :
    maxHistoryPageBytes < size l + pageSize page := by
  have fails := not_holds_cons cut kept
  unfold Fits at fails
  rw [not_or, pageSize_cons] at fails
  exact not_le.mp fails.2

theorem pageOf_newest {lines : List LogEntry} {n limit : Nat} (positive : 1 ≤ limit) (wide : limit ≤ n)
    (bounded : ∀ l ∈ lines, size l ≤ maxLogLineSize) :
    PageOf limit lines
      (newest limit (longestSuffix (Fits maxHistoryPageBytes) (newest n lines))) := by
  have sent := newest_suffix n lines
  have within := longestSuffix_suffix (p := Fits maxHistoryPageBytes) (newest n lines)
  generalize kept : longestSuffix (Fits maxHistoryPageBytes) (newest n lines) = page at *
  have length := length_newest limit page
  refine ⟨(newest_suffix limit page).trans (within.trans sent), fun some => ?_, by omega, ?_⟩
  · have sentSome : newest n lines ≠ [] := by
      apply List.ne_nil_of_length_pos
      rw [length_newest]
      have := List.length_pos_of_ne_nil some
      omega
    have pageSome := longestSuffix_ne_nil fits_single sentSome
    rw [kept] at pageSome
    apply List.ne_nil_of_length_pos
    have := List.length_pos_of_ne_nil pageSome
    omega
  · intro proper
    by_cases full : limit ≤ page.length
    · left
      omega
    · right
      have whole : newest limit page = page := newest_of_length_le (by omega)
      rw [whole] at proper ⊢
      -- fewer than `limit` lines are left of at least as many, so the bytes cut them
      have cut : page ≠ newest n lines := by
        rintro same
        have sentLength := length_newest n lines
        rw [← same] at sentLength
        exact proper (same.trans (newest_of_length_le (by omega)))
      obtain ⟨pre, l, front⟩ := exists_front within cut
      have past := overflow front kept
      have member : l ∈ lines := sent.subset (by rw [front]; simp)
      have := bounded l member
      have := line_lt_page
      omega

/-- Where the byte budget, with the cursor's line counted, cuts the container's page to fewer lines
than the limit, what is left is within one line of the budget. -/
def Container.CursorSpared (c : Container) (before : String) (limit : Nat) : Prop :=
  ∀ pre l page, ∀ at_ ∈ c.lines, at_.timestamp = before →
    c.eligible before = pre ++ l :: page → page.length < limit →
    pageSize page + size at_ ≤ maxHistoryPageBytes →
    maxHistoryPageBytes < size l + pageSize page + size at_ →
    maxHistoryPageBytes - maxLogLineSize < pageSize page

theorem pageOf_cursor {lines : List LogEntry} {at_ : LogEntry} {limit : Nat} (positive : 1 ≤ limit)
    (bounded : ∀ l ∈ lines, size l ≤ maxLogLineSize) (small : size at_ ≤ maxLogLineSize)
    (spared : ∀ pre l page, lines = pre ++ l :: page → page.length < limit →
      pageSize page + size at_ ≤ maxHistoryPageBytes →
      maxHistoryPageBytes < size l + pageSize page + size at_ →
      maxHistoryPageBytes - maxLogLineSize < pageSize page) :
    ∃ page, longestSuffix (Fits maxHistoryPageBytes) (newest limit lines ++ [at_]) = page ++ [at_] ∧
      PageOf limit lines page := by
  have whole := longestSuffix_suffix (p := Fits maxHistoryPageBytes) (newest limit lines ++ [at_])
  have holds := longestSuffix_holds (p := Fits maxHistoryPageBytes) (.inl (Nat.zero_le 1))
    (newest limit lines ++ [at_])
  have last := longestSuffix_ne_nil (p := Fits maxHistoryPageBytes) fits_single
    (List.concat_ne_nil at_ (newest limit lines))
  generalize kept : longestSuffix (Fits maxHistoryPageBytes) (newest limit lines ++ [at_]) = sent at *
  obtain ⟨page, rfl, within⟩ := (List.suffix_concat_iff.mp whole).resolve_left last
  have short := within.length_le
  rw [length_newest] at short
  -- what stands in front of a page that is not everything the stream sent
  have front (proper : page ≠ newest limit lines) : ∃ pre l, lines = pre ++ l :: page ∧
      maxHistoryPageBytes < size l + pageSize page + size at_ := by
    obtain ⟨pre, l, cut⟩ := exists_front within proper
    obtain ⟨before, whole⟩ := newest_suffix limit lines
    refine ⟨before ++ pre, l, by rw [← whole, cut, List.append_assoc], ?_⟩
    have whole : newest limit lines ++ [at_] = pre ++ l :: (page ++ [at_]) := by
      rw [cut]
      simp
    have past := overflow whole kept
    rw [pageSize_append] at past
    exact Nat.add_assoc _ _ _ ▸ past
  have some (nonempty : lines ≠ []) : page ≠ [] := by
    rintro rfl
    have proper : [] ≠ newest limit lines := by
      intro empty
      have length := length_newest limit lines
      rw [← empty, List.length_nil] at length
      have := List.length_pos_of_ne_nil nonempty
      omega
    obtain ⟨pre, l, cut, past⟩ := front proper
    have := bounded l (by rw [cut]; simp)
    have := line_lt_page
    simp only [pageSize, List.map_nil, List.sum_nil] at past
    omega
  refine ⟨page, rfl, within.trans (newest_suffix limit lines), some, by omega, fun missing => ?_⟩
  by_cases full : limit ≤ page.length
  · exact .inl full
  · right
    have proper : page ≠ newest limit lines := by
      rintro same
      have length := length_newest limit lines
      rw [← same] at length
      exact missing (same.trans (newest_of_length_le (by omega)))
    obtain ⟨pre, l, cut, past⟩ := front proper
    refine spared pre l page cut (by omega) ?_ past
    rcases holds with single | small
    · rw [List.length_append, List.length_singleton] at single
      exact absurd (List.length_eq_zero_iff.mp (by omega)) (some (by rw [cut]; simp))
    · rwa [pageSize_append] at small

/-! ## What Docker sends -/

theorem dockerLogs_empty (lines : List LogEntry) (tail : Nat) :
    dockerLogs lines { tail, until_ := "" } = newest tail lines := by
  rw [dockerLogs]
  simp only [timeParse_empty]

theorem dockerLogs_text {lines : List LogEntry}
    (fixedWidth : ∀ l ∈ lines, ∃ t : Stamp, l.timestamp = t.text) (tail : Nat) (t : Stamp) :
    dockerLogs lines { tail, until_ := t.text } =
      newest tail (lines.filter fun l => l.timestamp ≤ t.text) := by
  rw [dockerLogs]
  simp only [t.timeParse_text]
  congr 1
  refine List.filter_congr fun l member => ?_
  obtain ⟨u, stamp⟩ := fixedWidth l member
  rw [stamp, u.timeParse_text]
  have order : (u.instant : Int) ≤ t.instant ↔ u.text ≤ t.text := by
    rw [Int.ofNat_le, ← not_lt, ← Stamp.text_lt_iff, not_lt]
  exact decide_eq_decide.mpr order

theorem dropFromCursor_text {lines : List LogEntry}
    (fixedWidth : ∀ l ∈ lines, ∃ t : Stamp, l.timestamp = t.text) (t : Stamp) :
    dropFromCursor lines t.text = lines.filter fun l => l.timestamp < t.text := by
  rw [dropFromCursor]
  simp only [t.timeParse_text]
  refine List.filter_congr fun l member => ?_
  obtain ⟨u, stamp⟩ := fixedWidth l member
  have parsed : timeParse (HistoryLine.stamp l) = some (u.instant : Int) := by
    change timeParse l.timestamp = _
    rw [stamp, u.timeParse_text]
  rw [atOrAfter, parsed, stamp]
  simp only [Bool.not_not, Int.ofNat_lt, Stamp.text_lt_iff]

theorem readLogLines_newest (lines : List LogEntry) (n : Nat) :
    readLogLines (newest n lines) n = longestSuffix (Fits maxHistoryPageBytes) (newest n lines) := by
  rw [readLogLines_eq, List.take_of_length_le (by rw [length_newest]; omega)]

theorem cut_to_limit (limit : Nat) (lines : List LogEntry) :
    (if lines.length > limit then newest limit lines else lines) = newest limit lines := by
  split
  · rfl
  · exact (newest_of_length_le (by omega)).symm

theorem fetchLogHistory_container (c : Container) (before : String) (limit : Nat) :
    fetchLogHistory c.source before limit =
      newest limit (dropFromCursor
        (readLogLines
          (dockerLogs c.lines
            { tail := if before ≠ "" then limit + 1 else limit, until_ := before })
          (if before ≠ "" then limit + 1 else limit)) before) := by
  rw [fetchLogHistory]
  simp only [Container.source, Bool.false_eq_true, false_and, if_false, Bool.not_false, if_true,
    cut_to_limit]

theorem text_ne_empty (t : Stamp) : t.text ≠ "" := by
  intro empty
  have parsed := t.timeParse_text
  rw [empty, timeParse_empty] at parsed
  cases parsed

theorem eligible_text (c : Container) (t : Stamp) :
    c.eligible t.text = c.lines.filter fun l => l.timestamp < t.text := by
  refine List.filter_congr fun l _ => ?_
  simp [older, text_ne_empty t]

theorem fetchLogHistory_pageOf (c : Container) {before : String} (cursor : Cursor before) {limit : Nat}
    (positive : 1 ≤ limit) (spared : c.CursorSpared before limit) :
    PageOf limit (c.eligible before) (fetchLogHistory c.source before limit) := by
  have bounded : ∀ l ∈ c.eligible before, size l ≤ maxLogLineSize :=
    fun l member => c.bounded l (List.mem_filter.mp member).1
  rw [fetchLogHistory_container]
  rcases cursor with rfl | ⟨t, rfl⟩
  · have all : c.eligible "" = c.lines := List.filter_eq_self.mpr fun l _ => by simp [older]
    have undropped (lines : List LogEntry) : dropFromCursor lines "" = lines := by
      rw [dropFromCursor]
      simp only [timeParse_empty]
    rw [if_neg (not_not.mpr rfl), dockerLogs_empty, readLogLines_newest, undropped, ← all]
    exact pageOf_newest positive (le_refl limit) bounded
  · rw [if_pos (text_ne_empty t), dockerLogs_text c.fixedWidth, readLogLines_newest]
    have sent (l : LogEntry) (member : l ∈ longestSuffix (Fits maxHistoryPageBytes)
        (newest (limit + 1) (c.lines.filter fun l => l.timestamp ≤ t.text))) : l ∈ c.lines :=
      (List.mem_filter.mp (((longestSuffix_suffix _).trans (newest_suffix _ _)).subset member)).1
    rw [dropFromCursor_text fun l member => c.fixedWidth l (sent l member),
      filter_le_append c.ascending]
    rw [eligible_text] at bounded ⊢
    have old : ∀ l ∈ c.lines.filter (fun l => l.timestamp < t.text), decide (l.timestamp < t.text) :=
      fun l member => (List.mem_filter.mp member).2
    rcases filter_eq_single c.ascending t.text with none | ⟨at_, member, stamp, single⟩
    · have kept := List.filter_eq_self.mpr fun l member => old l
        (((longestSuffix_suffix (p := Fits maxHistoryPageBytes) _).trans
          (newest_suffix (limit + 1) _)).subset member)
      rw [none, List.append_nil, kept]
      exact pageOf_newest positive (Nat.le_succ limit) bounded
    · rw [single, newest_append_singleton]
      obtain ⟨page, kept, pageOf⟩ := pageOf_cursor positive bounded (c.bounded at_ member)
        fun pre l page cut => spared pre l page at_ member stamp (by rw [eligible_text, cut])
      have young : decide (at_.timestamp < t.text) = false := by
        rw [stamp]
        exact decide_eq_false (lt_irrefl _)
      rw [kept, List.filter_append, List.filter_singleton, young, cond_false, List.append_nil,
        List.filter_eq_self.mpr fun l member => old l (pageOf.suffix.subset member),
        newest_of_length_le pageOf.short]
      exact pageOf

/-- A container with no more than a page of lines sends them all. -/
theorem fetchLogHistory_all {c : Container} {limit : Nat} (few : c.lines.length ≤ limit)
    (light : pageSize c.lines ≤ maxHistoryPageBytes) :
    fetchLogHistory c.source "" limit = c.lines := by
  have whole : newest limit c.lines = c.lines := newest_of_length_le few
  have read := readLogLines_newest c.lines limit
  rw [whole, longestSuffix_self (.inr light)] at read
  rw [fetchLogHistory_container, if_neg (not_not.mpr rfl), dockerLogs_empty, whole, read, dropFromCursor]
  simp only [timeParse_empty]
  exact whole

end Dockgraph.Api
