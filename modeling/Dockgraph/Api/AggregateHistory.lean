import Dockgraph.Api.NewestLines
import Dockgraph.Api.SourcePage

/-!
# Aggregate log history (`api/logs_aggregate.go`)

A page merges one page of every source, in the order their goroutines get the lock, and ends
where the page of a source that may hold older lines ends.
-/
namespace Dockgraph.Api

open Timestamp Suffix

/-- A log line tagged with its source. -/
structure AggregateLine extends LogEntry where
  container : String
  deriving DecidableEq

instance : HistoryLine AggregateLine where
  stamp l := l.timestamp
  size l := l.line.length

/-- The source's page may have been cut: it is full, or within one line of the budget. -/
def mayHoldOlder (lines : List AggregateLine) (limit : Nat) : Bool :=
  lines ≠ [] ∧ (lines.length ≥ limit ∨ pageSize lines > maxHistoryPageBytes - maxLogLineSize)

def fetchSourceHistory (src : LogSource) (before : String) (limit : Nat) : List AggregateLine :=
  (fetchLogHistory src before limit).map fun e => { e with container := src.name }

/-- The page and its floor, under the lock. -/
structure Merge where
  page : NewestLines AggregateLine
  floor : String := ""

/-- A source's goroutine, once it has its lines. -/
def Merge.source (before : String) (limit : Nat) (m : Merge) (src : LogSource) : Merge :=
  let lines := fetchSourceHistory src before limit
  let floor := match lines with
    | [] => m.floor
    | l :: _ => if mayHoldOlder lines limit ∧ l.timestamp > m.floor then l.timestamp else m.floor
  { page := lines.foldl NewestLines.add m.page, floor }

/-- The sources in the order they are merged. -/
def collectHistory (sources : List LogSource) (before : String) (limit : Nat) : List AggregateLine :=
  let m := sources.foldl (Merge.source before limit) { page := newNewestLines before limit }
  m.page.result.dropWhile fun l => l.timestamp < m.floor

/-- Pages from a cursor back until one is empty, one merge order for each call. -/
def history (limit : Nat) : String → List (List LogSource) → List (List AggregateLine)
  | _, [] => []
  | before, sources :: calls =>
    match collectHistory sources before limit with
    | [] => []
    | l :: page => (l :: page) :: history limit l.timestamp calls

/-! ## What one call merges -/

def merged (sources : List LogSource) (before : String) (limit : Nat) : List AggregateLine :=
  sources.flatMap fun src => fetchSourceHistory src before limit

theorem foldl_source (before : String) (limit : Nat) (sources : List LogSource) (m : Merge) :
    (sources.foldl (Merge.source before limit) m).page =
      (merged sources before limit).foldl NewestLines.add m.page := by
  induction sources generalizing m with
  | nil => rfl
  | cons src sources ih =>
    rw [List.foldl_cons, ih]
    exact List.foldl_append.symm

/-- The floor only rises. -/
theorem floor_le_source (before : String) (limit : Nat) (m : Merge) (src : LogSource) :
    m.floor ≤ (m.source before limit src).floor := by
  unfold Merge.source
  dsimp only
  repeat' split
  · exact le_refl _
  next raised => exact raised.2.le
  · exact le_refl _

theorem floor_le_foldl (before : String) (limit : Nat) (sources : List LogSource) (m : Merge) :
    m.floor ≤ (sources.foldl (Merge.source before limit) m).floor := by
  induction sources generalizing m with
  | nil => exact le_refl _
  | cons src sources ih => exact (floor_le_source before limit m src).trans (ih _)

/-- A source that may hold older lines puts the floor at its oldest line, or higher. -/
theorem le_floor {before : String} {limit : Nat} {sources : List LogSource} {src : LogSource}
    (member : src ∈ sources) {l : AggregateLine} {rest : List AggregateLine}
    (fetched : fetchSourceHistory src before limit = l :: rest)
    (cut : mayHoldOlder (l :: rest) limit = true) (m : Merge) :
    l.timestamp ≤ (sources.foldl (Merge.source before limit) m).floor := by
  induction sources generalizing m with
  | nil => cases member
  | cons head sources ih =>
    rcases List.mem_cons.mp member with rfl | member
    · refine le_trans ?_ (floor_le_foldl before limit sources _)
      rw [Merge.source, fetched]
      dsimp only
      split
      · exact le_refl _
      next low => exact not_lt.mp fun higher => low ⟨cut, higher⟩
    · exact ih member _

/-- The floor is where it was, or at a line that was merged. -/
theorem floor_cases (before : String) (limit : Nat) (sources : List LogSource) (m : Merge) :
    (sources.foldl (Merge.source before limit) m).floor = m.floor ∨
      ∃ l ∈ merged sources before limit,
        l.timestamp = (sources.foldl (Merge.source before limit) m).floor := by
  induction sources generalizing m with
  | nil => exact .inl rfl
  | cons src sources ih =>
    rw [List.foldl_cons]
    rcases ih (m.source before limit src) with same | ⟨l, member, stamp⟩
    · rw [same, Merge.source]
      dsimp only
      split
      · exact .inl rfl
      next l rest fetched =>
        split
        · refine .inr ⟨l, List.mem_flatMap.mpr ⟨src, List.mem_cons_self, ?_⟩, rfl⟩
          rw [fetched]
          exact List.mem_cons_self
        · exact .inl rfl
    · refine .inr ⟨l, ?_, stamp⟩
      obtain ⟨other, listed, fetched⟩ := List.mem_flatMap.mp member
      exact List.mem_flatMap.mpr ⟨other, List.mem_cons_of_mem src listed, fetched⟩

/-- Sources that were not cut leave the floor where it was. -/
theorem floor_of_complete {before : String} {limit : Nat} {sources : List LogSource}
    (complete : ∀ src ∈ sources, mayHoldOlder (fetchSourceHistory src before limit) limit = false)
    (m : Merge) : (sources.foldl (Merge.source before limit) m).floor = m.floor := by
  induction sources generalizing m with
  | nil => rfl
  | cons src sources ih =>
    rw [List.forall_mem_cons] at complete
    rw [List.foldl_cons, ih complete.2, Merge.source]
    dsimp only
    split
    · rfl
    · exact if_neg fun raised => Bool.false_ne_true (complete.1.symm.trans raised.1)

/-! ## The lines of the containers -/

/-- A line as the history returns it. -/
def Container.tag (c : Container) (e : LogEntry) : AggregateLine := { e with container := c.name }

/-- Every line of every container. -/
def allLines (containers : List Container) : List AggregateLine :=
  containers.flatMap fun c => c.lines.map c.tag

/-- The line is older than the cursor. -/
def AggregateLine.older (before : String) (l : AggregateLine) : Bool :=
  Api.older before l.toLogEntry

/-- The lines the calls from a cursor on may still return. -/
def remaining (containers : List Container) (before : String) : List AggregateLine :=
  (allLines containers).filter fun l => l.older before

theorem remaining_eq (containers : List Container) (before : String) :
    remaining containers before = containers.flatMap fun c => (c.eligible before).map c.tag := by
  rw [remaining, allLines, List.filter_flatMap]
  refine List.flatMap_congr fun c _ => ?_
  rw [List.filter_map]
  rfl

/-- The call does not run into a cut that goes unnoticed. -/
structure SparesCall (containers : List Container) (before : String) (limit : Nat) : Prop where
  /-- A byte cut that counts the line at the cursor leaves a page that still shows it. -/
  cursor : ∀ c ∈ containers, c.CursorSpared before limit
  /-- No line is merged after a newer one was dropped for its bytes. -/
  merge : (newNewestLines before limit).SparesAll
    (merged (containers.map Container.source) before limit)

theorem fetchSourceHistory_eq (c : Container) (before : String) (limit : Nat) :
    fetchSourceHistory c.source before limit =
      (fetchLogHistory c.source before limit).map c.tag := rfl

theorem pageSize_tag (c : Container) (lines : List LogEntry) :
    pageSize (lines.map c.tag) = pageSize lines := by
  rw [pageSize, List.map_map, pageSize]
  rfl

theorem mem_merged {containers : List Container} {before : String} {limit : Nat} {l : AggregateLine} :
    l ∈ merged (containers.map Container.source) before limit ↔
      ∃ c ∈ containers, ∃ e ∈ fetchLogHistory c.source before limit, c.tag e = l := by
  simp [merged, fetchSourceHistory_eq]

/-! ## One page -/

/-- The page is the newest of what is left. -/
structure Page (containers : List Container) (before : String) (limit : Nat)
    (page : List AggregateLine) : Prop where
  ascending : page.Pairwise fun a b => a.timestamp < b.timestamp
  short : page.length ≤ limit
  subset : ∀ l ∈ page, l ∈ remaining containers before
  newest : ∀ l ∈ remaining containers before, l ∉ page → ∀ r ∈ page, l.timestamp < r.timestamp
  some : remaining containers before ≠ [] → page ≠ []

section Call

variable {containers : List Container} {before : String} {limit : Nat}

theorem empty_le (s : String) : "" ≤ s := by
  rw [← not_lt, String.lt_iff]
  exact List.not_lt_nil _

theorem mem_remaining {l : AggregateLine} :
    l ∈ remaining containers before ↔ ∃ c ∈ containers, ∃ e ∈ c.eligible before, c.tag e = l := by
  simp [remaining_eq]

theorem merged_sublist (pages : ∀ c ∈ containers,
      PageOf limit (c.eligible before) (fetchLogHistory c.source before limit)) :
    (merged (containers.map Container.source) before limit).Sublist (remaining containers before) := by
  rw [remaining_eq, merged, List.flatMap_map]
  induction containers with
  | nil => exact List.Sublist.refl []
  | cons c containers ih =>
    rw [List.forall_mem_cons] at pages
    exact (pages.1.suffix.sublist.map c.tag).append (ih pages.2)

theorem drops_remaining (cursor : Cursor before) {l : AggregateLine}
    (left : l ∈ remaining containers before) :
    (newNewestLines (α := AggregateLine) before limit).drops l = false := by
  rcases cursor with rfl | ⟨t, rfl⟩
  · rw [NewestLines.drops, newNewestLines, timeParse_empty]
  · obtain ⟨c, -, e, member, rfl⟩ := mem_remaining.mp left
    rw [eligible_text] at member
    obtain ⟨listed, less⟩ := List.mem_filter.mp member
    obtain ⟨u, stamp⟩ := c.fixedWidth e listed
    have parsed : timeParse (HistoryLine.stamp (c.tag e)) = some (u.instant : Int) := by
      change timeParse e.timestamp = _
      rw [stamp, u.timeParse_text]
    have earlier : u.instant < t.instant := by
      rw [← Stamp.text_lt_iff, ← stamp]
      exact of_decide_eq_true less
    rw [NewestLines.drops, newNewestLines, t.timeParse_text]
    simp only [atOrAfter, parsed, Int.ofNat_lt, earlier, decide_true, Bool.not_true]

/-- A container whose page is not all that is left raises the floor to it. -/
theorem lt_floor {c : Container} (member : c ∈ containers)
    (page : PageOf limit (c.eligible before) (fetchLogHistory c.source before limit))
    {e : LogEntry} (left : e ∈ c.eligible before)
    (missing : e ∉ fetchLogHistory c.source before limit) (m : Merge) :
    e.timestamp < ((containers.map Container.source).foldl (Merge.source before limit) m).floor := by
  have some := page.some (List.ne_nil_of_mem left)
  have cut := page.cut fun whole => missing (whole ▸ left)
  obtain ⟨l, rest, fetched⟩ := List.exists_cons_of_ne_nil some
  have source : fetchSourceHistory c.source before limit = c.tag l :: rest.map c.tag := by
    rw [fetchSourceHistory_eq, fetched, List.map_cons]
  have told : mayHoldOlder (c.tag l :: rest.map c.tag) limit = true := by
    rw [← source, fetchSourceHistory_eq, mayHoldOlder, pageSize_tag, List.length_map]
    exact decide_eq_true ⟨by simpa using some, cut⟩
  have less : e.timestamp < l.timestamp :=
    lt_of_not_mem_suffix (c.ascending.filter _) page.suffix left missing
      (by rw [fetched]; exact List.mem_cons_self)
  exact lt_of_lt_of_le less (le_floor (List.mem_map_of_mem member) source told m)

theorem mem_merged_fetch {c : Container} (member : c ∈ containers) {e : LogEntry}
    (fetched : e ∈ fetchLogHistory c.source before limit) :
    c.tag e ∈ merged (containers.map Container.source) before limit :=
  mem_merged.mpr ⟨c, member, e, fetched, rfl⟩

/-- Some line that was merged is at the floor or above. -/
theorem exists_ge_floor {c : Container} (member : c ∈ containers)
    (page : PageOf limit (c.eligible before) (fetchLogHistory c.source before limit))
    (left : c.eligible before ≠ []) : ∃ d ∈ merged (containers.map Container.source) before limit,
    ((containers.map Container.source).foldl (Merge.source before limit)
      { page := newNewestLines before limit }).floor ≤ d.timestamp := by
  obtain ⟨k, sent⟩ := List.exists_mem_of_ne_nil _ (page.some left)
  rcases floor_cases before limit (containers.map Container.source) { page := newNewestLines before limit } with
    same | ⟨d, added, same⟩
  · exact ⟨c.tag k, mem_merged_fetch member sent, by rw [same]; exact empty_le _⟩
  · exact ⟨d, added, same.ge⟩

theorem collectHistory_page (cursor : Cursor before) (positive : 1 ≤ limit)
    (distinct : ((allLines containers).map fun l => l.timestamp).Nodup)
    (spares : SparesCall containers before limit) :
    Page containers before limit
      (collectHistory (containers.map Container.source) before limit) := by
  have pages : ∀ c ∈ containers, PageOf limit (c.eligible before)
      (fetchLogHistory c.source before limit) :=
    fun c member => fetchLogHistory_pageOf c cursor positive (spares.cursor c member)
  have sublist := merged_sublist pages
  have apart : ((merged (containers.map Container.source) before limit).map stamp).Nodup :=
    distinct.sublist ((sublist.trans List.filter_sublist).map _)
  have holds := NewestLines.holds_foldl_add positive rfl apart
    (fun l member => drops_remaining cursor (sublist.subset member)) spares.merge
  have bounds := NewestLines.foldl_add_bounds (newNewestLines before limit)
    (merged (containers.map Container.source) before limit)
  let start : Merge := { page := newNewestLines before limit }
  have merge := foldl_source before limit (containers.map Container.source) start
  have reached (c : Container) (member : c ∈ containers) := exists_ge_floor member (pages c member)
  have below (e : LogEntry) (c : Container) (member : c ∈ containers) (left : e ∈ c.eligible before)
      (missing : e ∉ fetchLogHistory c.source before limit) :=
    lt_floor member (pages c member) left missing start
  unfold collectHistory
  generalize (containers.map Container.source).foldl (Merge.source before limit) start = m at *
  rw [← merge] at holds bounds
  have result := NewestLines.pairwise_trim holds.distinct
  have page : (m.page.result.dropWhile fun l => l.timestamp < m.floor) =
      m.page.trim.lines.filter fun l => m.floor ≤ l.timestamp := dropWhile_lt result m.floor
  rw [page]
  constructor
  · exact result.filter _
  · exact (List.length_filter_le _ _).trans (m.page.length_trim.trans (by rw [bounds.2]; rfl))
  · intro l member
    exact sublist.subset (holds.subset l (NewestLines.mem_of_mem_trim (List.mem_filter.mp member).1))
  · intro l left out r kept
    obtain ⟨kept, above⟩ := List.mem_filter.mp kept
    have above := of_decide_eq_true above
    obtain ⟨c, member, e, eligible, rfl⟩ := mem_remaining.mp left
    by_cases fetched : e ∈ fetchLogHistory c.source before limit
    · by_cases held : c.tag e ∈ m.page.trim.lines
      · -- it was held, so it was below the floor
        have low : ¬m.floor ≤ (c.tag e).timestamp := fun high =>
          out (List.mem_filter.mpr ⟨held, decide_eq_true high⟩)
        exact lt_of_lt_of_le (not_le.mp low) above
      · exact holds.trim_dropped (mem_merged_fetch member fetched) held kept
    · exact lt_of_lt_of_le (below e c member eligible fetched) above
  · intro some
    obtain ⟨l, left⟩ := List.exists_mem_of_ne_nil _ some
    obtain ⟨c, member, e, eligible, rfl⟩ := mem_remaining.mp left
    obtain ⟨d, added, high⟩ := reached c member (List.ne_nil_of_mem eligible)
    obtain ⟨r, kept, le⟩ := holds.trim_newest (by rw [bounds.2]; exact positive) added
    exact List.ne_nil_of_mem (List.mem_filter.mpr ⟨kept, decide_eq_true (high.trans le)⟩)

end Call

end Dockgraph.Api
