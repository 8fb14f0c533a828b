import Dockgraph.Api.AggregateHistory

/-!
# Paging back through the log history

Each page is the newest of what is left, so the pages until an empty one return every line once.
-/
namespace Dockgraph.Api

open Timestamp Suffix

/-- Every call of the paging meets the condition, at the cursor it is made with. -/
def SparesRun (limit : Nat) : String → List (List Container) → Prop
  | _, [] => True
  | before, containers :: calls =>
    SparesCall containers before limit ∧
      ∀ l page, collectHistory (containers.map Container.source) before limit = l :: page →
        SparesRun limit l.timestamp calls

/-- The pages of calls that merge the containers in these orders. -/
def containerHistory (limit : Nat) (before : String) (calls : List (List Container)) :
    List (List AggregateLine) :=
  history limit before (calls.map fun containers => containers.map Container.source)

theorem allLines_perm {call containers : List Container} (order : call.Perm containers) :
    (allLines call).Perm (allLines containers) := order.flatMap_right _

theorem stamp_mem {containers : List Container} {l : AggregateLine} (member : l ∈ allLines containers) :
    ∃ t : Stamp, l.timestamp = t.text := by
  obtain ⟨c, -, tagged⟩ := List.mem_flatMap.mp member
  obtain ⟨e, listed, rfl⟩ := List.mem_map.mp tagged
  exact c.fixedWidth e listed

theorem older_iff {before : String} (some : before ≠ "") (l : AggregateLine) :
    l.older before = true ↔ l.timestamp < before := by
  simp [AggregateLine.older, older, some]

/-- A page and what is older than its oldest line are all there was left. -/
theorem page_append_remaining {containers : List Container} {before : String} {limit : Nat}
    {l : AggregateLine} {rest : List AggregateLine}
    (page : Page containers before limit (l :: rest))
    (distinct : ((allLines containers).map fun l => l.timestamp).Nodup) :
    (l :: rest ++ remaining containers l.timestamp).Perm (remaining containers before) := by
  have nodup : (allLines containers).Nodup := List.Nodup.of_map _ distinct
  have first := page.subset l List.mem_cons_self
  obtain ⟨t, stamp⟩ := stamp_mem (List.mem_filter.mp first).1
  have some : l.timestamp ≠ "" := stamp ▸ text_ne_empty t
  have above (r : AggregateLine) (member : r ∈ l :: rest) : l.timestamp ≤ r.timestamp := by
    rcases List.mem_cons.mp member with rfl | later
    · exact le_refl _
    · exact ((List.pairwise_cons.mp page.ascending).1 r later).le
  have old (r : AggregateLine) : r ∈ remaining containers l.timestamp ↔
      r ∈ allLines containers ∧ r.timestamp < l.timestamp := by
    rw [remaining, List.mem_filter, older_iff some]
  have apart : (l :: rest).Nodup := page.ascending.imp fun less same => less.ne (congrArg (fun r => r.timestamp) same)
  refine (List.perm_ext_iff_of_nodup ?_ (nodup.filter _)).mpr fun r => ?_
  · refine List.nodup_append.mpr ⟨apart, nodup.filter _, ?_⟩
    rintro r member _ left rfl
    exact not_lt.mpr (above r member) ((old r).mp left).2
  · rw [List.mem_append, old]
    constructor
    · rintro (member | ⟨listed, less⟩)
      · exact page.subset r member
      · -- older than a line that is older than the cursor
        refine List.mem_filter.mpr ⟨listed, ?_⟩
        by_cases empty : before = ""
        · simp [AggregateLine.older, older, empty]
        · exact (older_iff empty r).mpr
            (less.trans ((older_iff empty l).mp (List.mem_filter.mp first).2))
    · intro left
      by_cases kept : r ∈ l :: rest
      · exact .inl kept
      · exact .inr ⟨(List.mem_filter.mp left).1, page.newest r left kept l List.mem_cons_self⟩

theorem containerHistory_from {containers : List Container}
    (distinct : ((allLines containers).map fun l => l.timestamp).Nodup) {limit : Nat}
    (positive : 1 ≤ limit) {calls : List (List Container)}
    (orders : ∀ call ∈ calls, call.Perm containers) {before : String} (cursor : Cursor before)
    (enough : (remaining containers before).length < calls.length)
    (spared : SparesRun limit before calls) :
    (containerHistory limit before calls).flatten.Perm (remaining containers before) ∧
      ∀ page ∈ containerHistory limit before calls,
        page.Pairwise (fun a b => a.timestamp < b.timestamp) ∧ page.length ≤ limit := by
  induction calls generalizing before with
  | nil => exact absurd enough (Nat.not_lt_zero _)
  | cons call calls ih =>
    rw [List.forall_mem_cons] at orders
    have same := allLines_perm orders.1
    have left : (remaining call before).Perm (remaining containers before) := same.filter _
    have page := collectHistory_page cursor positive
      ((same.map _).nodup_iff.mpr distinct) spared.1
    rw [containerHistory, List.map_cons, history]
    have next := spared.2
    generalize collectHistory (call.map Container.source) before limit = lines at page next
    cases lines with
    | nil =>
      have none : remaining call before = [] := by
        by_contra some
        exact page.some some rfl
      rw [none] at left
      exact ⟨left, nofun⟩
    | cons l rest =>
      have parts := page_append_remaining page ((same.map _).nodup_iff.mpr distinct)
      have older : (remaining call l.timestamp).Perm (remaining containers l.timestamp) :=
        same.filter _
      obtain ⟨t, stamp⟩ := stamp_mem (List.mem_filter.mp (page.subset l List.mem_cons_self)).1
      have length := (parts.trans left).length_eq
      rw [List.length_append, List.length_cons, older.length_eq] at length
      rw [List.length_cons] at enough
      obtain ⟨all, each⟩ := ih orders.2 (.inr ⟨t, stamp⟩) (by omega) (next l rest rfl)
      constructor
      · exact ((all.trans older.symm).append_left (l :: rest)).trans (parts.trans left)
      · intro shown member
        rcases List.mem_cons.mp member with rfl | later
        · exact ⟨page.ascending, page.short⟩
        · exact each shown later

/-- Few and short lines are never cut, so every call is spared. -/
theorem sparesRun_small {containers : List Container} {limit : Nat}
    (distinct : ((allLines containers).map fun l => l.timestamp).Nodup)
    (few : (allLines containers).length < 2 * limit)
    (light : 2 * pageSize (allLines containers) ≤ maxHistoryPageBytes) {calls : List (List Container)}
    (orders : ∀ call ∈ calls, call.Perm containers) {before : String} (cursor : Cursor before) :
    SparesRun limit before calls := by
  have positive : 1 ≤ limit := by omega
  induction calls generalizing before with
  | nil => trivial
  | cons call calls ih =>
    rw [List.forall_mem_cons] at orders
    have same := allLines_perm orders.1
    rw [← (same.map _).nodup_iff] at distinct
    rw [← same.length_eq] at few
    rw [← pageSize_perm same] at light
    have short {c : Container} (member : c ∈ call) {lines : List LogEntry}
        (part : lines.Sublist c.lines) : pageSize lines ≤ pageSize (allLines call) := by
      have whole : (c.lines.map c.tag).Sublist (allLines call) :=
        List.sublist_flatten_of_mem (List.mem_map_of_mem member)
      rw [← pageSize_tag c]
      exact pageSize_le_of_sublist ((part.map c.tag).trans whole)
    have cursors (c : Container) (member : c ∈ call) : c.CursorSpared before limit := by
      intro pre l page at_ listed _ cut _ _ past
      have one := short member (List.singleton_sublist.mpr listed)
      have front := short member (cut ▸ List.filter_sublist : (pre ++ l :: page).Sublist c.lines)
      rw [pageSize_cons] at one
      rw [pageSize_append, pageSize_cons] at front
      omega
    have part := merged_sublist fun c member =>
      fetchLogHistory_pageOf c cursor positive (cursors c member)
    have whole := part.trans List.filter_sublist
    have spares : SparesCall call before limit := by
      refine ⟨cursors, NewestLines.sparesAll_few ?_ ?_ fun l member =>
        drops_remaining cursor (part.subset member)⟩
      · change 0 + (merged (call.map Container.source) before limit).length < 2 * limit
        have := whole.length_le
        omega
      · change 0 + pageSize (merged (call.map Container.source) before limit) ≤ _
        have := pageSize_le_of_sublist whole
        omega
    refine ⟨spares, fun l rest shown => ih orders.2 ?_⟩
    have page := collectHistory_page cursor positive distinct spares
    rw [shown] at page
    obtain ⟨t, stamp⟩ := stamp_mem (List.mem_filter.mp (page.subset l List.mem_cons_self)).1
    exact .inr ⟨t, stamp⟩

/-! ## Lines of one length -/

/-- Ten in the morning and so many nanoseconds. -/
def stampAt (i : Nat) : Stamp where
  year := 2024
  month := 1
  day := 15
  hour := 10
  minute := 0
  second := 0
  nano := i % 10 ^ 9
  year_lt := by decide
  month_pos := by decide
  month_le := by decide
  day_pos := by decide
  day_le := by decide
  hour_lt := by decide
  minute_lt := by decide
  second_lt := by decide
  nano_lt := Nat.mod_lt _ (by decide)

theorem stampAt_lt {i j : Nat} (small : j < 10 ^ 9) (less : i < j) :
    (stampAt i).text < (stampAt j).text := by
  rw [Stamp.text_lt_iff, Stamp.instant_eq, Stamp.instant_eq]
  have first : (stampAt i).nano = i := Nat.mod_eq_of_lt (by omega)
  have second : (stampAt j).nano = j := Nat.mod_eq_of_lt small
  rw [first, second]
  exact Nat.add_lt_add_left less _

def logLine (bytes i : Nat) : LogEntry :=
  { stream := "stdout", line := List.replicate bytes 120, timestamp := (stampAt i).text }

/-- A container with lines of one length at consecutive nanoseconds. -/
def uniform (name : String) (start count bytes : Nat) (early : start + count < 10 ^ 9)
    (short : bytes ≤ maxLogLineSize) : Container where
  name
  lines := (List.range' start count).map (logLine bytes)
  fixedWidth l member := by
    obtain ⟨i, -, rfl⟩ := List.mem_map.mp member
    exact ⟨stampAt i, rfl⟩
  ascending := by
    rw [List.pairwise_map]
    refine List.Pairwise.imp_of_mem (fun _ later less => ?_) List.pairwise_lt_range'
    rw [List.mem_range'_1] at later
    exact stampAt_lt (by omega) less
  bounded l member := by
    obtain ⟨i, -, rfl⟩ := List.mem_map.mp member
    change (List.replicate bytes _).length ≤ _
    rwa [List.length_replicate]

/-- The pages from no cursor on until one is empty return every line of every container once, each
page ascending and of at most `limit` lines. There is a call more than there are lines, so the
calls do not run out. -/
theorem containerHistory_complete (containers : List Container)
    (distinct : ((allLines containers).map fun l => l.timestamp).Nodup) (limit : Nat)
    (positive : 1 ≤ limit) (calls : List (List Container))
    (orders : ∀ call ∈ calls, call.Perm containers)
    (enough : (allLines containers).length < calls.length) (spared : SparesRun limit "" calls) :
    (containerHistory limit "" calls).flatten.Perm (allLines containers) ∧
      ∀ page ∈ containerHistory limit "" calls,
        page.Pairwise (fun a b => a.timestamp < b.timestamp) ∧ page.length ≤ limit := by
  have all : remaining containers "" = allLines containers :=
    List.filter_eq_self.mpr fun l _ => by simp [AggregateLine.older, older]
  rw [← all] at enough ⊢
  exact containerHistory_from distinct positive orders (.inl rfl) enough spared

/-- Two containers with more lines than a page has. -/
def pagedContainers : List Container :=
  [uniform "api" 0 3 1 (by decide) (by decide), uniform "db" 3 2 1 (by decide) (by decide)]

/-- They are merged in the one order and in the other. -/
def pagedCalls : List (List Container) :=
  (List.replicate 3 [pagedContainers, pagedContainers.reverse]).flatten

/-- Five lines of two containers, three to a page. -/
theorem containerHistory_paged :
    (containerHistory 3 "" pagedCalls).flatten.Perm (allLines pagedContainers) ∧
      ∀ page ∈ containerHistory 3 "" pagedCalls,
        page.Pairwise (fun a b => a.timestamp < b.timestamp) ∧ page.length ≤ 3 := by
  have stamps : ((allLines pagedContainers).map fun l => l.timestamp) =
      (List.range' 0 5).map fun i => (stampAt i).text := rfl
  have ascending : ((List.range' 0 5).map fun i => (stampAt i).text).Pairwise (· < ·) := by
    rw [List.pairwise_map]
    refine List.Pairwise.imp_of_mem (fun _ later less => ?_) List.pairwise_lt_range'
    rw [List.mem_range'_1] at later
    exact stampAt_lt (by omega) less
  have distinct : ((allLines pagedContainers).map fun l => l.timestamp).Nodup :=
    stamps ▸ ascending.imp fun less => less.ne
  have orders (call : List Container) (member : call ∈ pagedCalls) : call.Perm pagedContainers := by
    obtain ⟨both, listed, member⟩ := List.mem_flatten.mp member
    rw [List.eq_of_mem_replicate listed, List.mem_pair] at member
    rcases member with rfl | rfl
    · exact .refl _
    · exact List.reverse_perm _
  exact containerHistory_complete pagedContainers distinct 3 (by decide) pagedCalls orders (by decide)
    (sparesRun_small distinct (by decide) (by decide) orders (.inl rfl))

/-! ## Lines lost to an early trim -/

/-- Three containers with long lines, none of them cut, and one with an older short line. -/
def skipContainers : List Container :=
  [uniform "api" 1 31 16000 (by decide) (by decide), uniform "web" 32 31 16000 (by decide) (by decide),
    uniform "job" 63 4 16000 (by decide) (by decide), uniform "db" 0 1 1 (by decide) (by decide)]

/-- The long lines, in the order they are merged. -/
def longLines : List AggregateLine :=
  (skipContainers.take 3).flatMap fun c => c.lines.map c.tag

def shortLine : AggregateLine := { logLine 1 0 with container := "db" }

theorem size_uniform {name : String} {start count bytes : Nat} (early : start + count < 10 ^ 9)
    (short : bytes ≤ maxLogLineSize) :
    ∀ e ∈ (uniform name start count bytes early short).lines, size e = bytes := by
  intro e member
  obtain ⟨i, -, rfl⟩ := List.mem_map.mp member
  exact List.length_replicate

theorem size_longLines : ∀ l ∈ longLines, size l = 16000 := by
  intro l member
  obtain ⟨c, listed, tagged⟩ := List.mem_flatMap.mp member
  obtain ⟨e, line, rfl⟩ := List.mem_map.mp tagged
  change size e = 16000
  simp only [skipContainers, List.take_succ_cons, List.take_zero, List.mem_cons, List.not_mem_nil,
    or_false] at listed
  rcases listed with rfl | rfl | rfl <;> exact size_uniform _ _ e line

theorem longLines_stamps :
    longLines.map (fun l => l.timestamp) = (List.range' 1 66).map fun i => (stampAt i).text := by
  rfl

theorem longLines_ascending : longLines.Pairwise fun a b => a.timestamp < b.timestamp := by
  have stamps : (longLines.map fun l => l.timestamp).Pairwise (· < ·) := by
    rw [longLines_stamps, List.pairwise_map]
    refine List.Pairwise.imp_of_mem (fun _ later less => ?_) List.pairwise_lt_range'
    rw [List.mem_range'_1] at later
    exact stampAt_lt (by omega) less
  exact List.pairwise_map.mp stamps

theorem length_longLines : longLines.length = 66 := by
  rw [← List.length_map (fun l : AggregateLine => l.timestamp), longLines_stamps, List.length_map,
    List.length_range']

/-- Every container fits in a page of its own. -/
theorem skip_small {c : Container} (member : c ∈ skipContainers) :
    c.lines.length ≤ 31 ∧ pageSize c.lines ≤ 496000 := by
  have small {name : String} {start count bytes : Nat} (early : start + count < 10 ^ 9)
      (short : bytes ≤ maxLogLineSize) (few : count ≤ 31) (light : count * bytes ≤ 496000) :
      (uniform name start count bytes early short).lines.length ≤ 31 ∧
        pageSize (uniform name start count bytes early short).lines ≤ 496000 := by
    have length : (uniform name start count bytes early short).lines.length = count := by
      rw [uniform, List.length_map, List.length_range']
    rw [pageSize_uniform (size_uniform early short), length]
    exact ⟨few, light⟩
  simp only [skipContainers, List.mem_cons, List.not_mem_nil, or_false] at member
  rcases member with rfl | rfl | rfl | rfl <;> exact small _ _ (by decide) (by decide)

theorem fetch_skip {c : Container} (member : c ∈ skipContainers) :
    fetchLogHistory c.source "" 40 = c.lines := by
  obtain ⟨few, light⟩ := skip_small member
  exact fetchLogHistory_all (few.trans (by decide)) (light.trans (by decide))

theorem allLines_skip : allLines skipContainers = longLines ++ [shortLine] := rfl

theorem merged_skip : merged (skipContainers.map Container.source) "" 40 = longLines ++ [shortLine] := by
  have sent : merged (skipContainers.map Container.source) "" 40 = allLines skipContainers := by
    rw [merged, List.flatMap_map]
    exact List.flatMap_congr fun c member => by rw [fetchSourceHistory_eq, fetch_skip member]
  rw [sent, allLines_skip]

theorem floor_skip (m : Merge) :
    ((skipContainers.map Container.source).foldl (Merge.source "" 40) m).floor = m.floor := by
  refine floor_of_complete (fun src listed => ?_) m
  obtain ⟨c, member, rfl⟩ := List.mem_map.mp listed
  obtain ⟨few, light⟩ := skip_small member
  rw [fetchSourceHistory_eq, fetch_skip member, mayHoldOlder, pageSize_tag, List.length_map]
  have size : maxHistoryPageBytes - maxLogLineSize = 507873 := rfl
  refine decide_eq_false ?_
  rintro ⟨-, full | heavy⟩ <;> omega

/-- A page without a cursor. -/
def emptyPage : NewestLines AggregateLine := { cut := none, limit := 40 }

theorem newNewestLines_empty : newNewestLines "" 40 = emptyPage := by
  rw [newNewestLines, timeParse_empty, emptyPage]

section Long

variable {lines : List AggregateLine} (length : lines.length = 66)
  (long : ∀ l ∈ lines, size l = 16000)
  (ascending : lines.Pairwise fun a b => a.timestamp < b.timestamp)

include length long

theorem size_drop (n : Nat) : pageSize (lines.drop n) = (66 - n) * 16000 := by
  rw [pageSize_uniform fun l member => long l (List.mem_of_mem_drop member), List.length_drop, length]

/-- The newest long lines that fit in a page. -/
theorem longestSuffix_long :
    longestSuffix (Fits maxHistoryPageBytes) (newest 40 lines) = lines.drop 34 := by
  have bound : 33 < lines.length := by omega
  have front : lines.drop 33 = lines[33] :: lines.drop 34 := List.drop_eq_getElem_cons bound
  have split : newest 40 lines = (lines.drop 26).take 7 ++ lines[33] :: lines.drop 34 := by
    have parts := List.take_append_drop 7 (lines.drop 26)
    rw [List.drop_drop] at parts
    rw [newest, length, ← front]
    exact parts.symm
  have fails : ¬Fits maxHistoryPageBytes (lines[33] :: lines.drop 34) := by
    rw [← front, Fits, size_drop length long, List.length_drop, length]
    decide
  rw [split, longestSuffix_append_cons (hereditary_fits _) fails,
    longestSuffix_self (.inr (by rw [size_drop length long]; decide))]

include ascending

/-- The last long line fills the buffer. -/
theorem foldl_add_long : lines.foldl NewestLines.add emptyPage =
    { emptyPage with lines := lines.drop 34, total := 512000 } := by
  have bound : 65 < lines.length := by omega
  have split : lines = lines.take 65 ++ [lines[65]] := by
    have parts := List.take_append_drop 65 lines
    rw [List.drop_eq_getElem_cons bound, List.drop_of_length_le (by omega)] at parts
    exact parts.symm
  have front : pageSize (lines.take 65) = 1040000 := by
    rw [pageSize_uniform fun l member => long l (List.mem_of_mem_take member), List.length_take,
      length]
    rfl
  have last : size lines[65] = 16000 := long _ (List.getElem_mem bound)
  have few : emptyPage.lines.length + (lines.take 65).length < 2 * emptyPage.limit := by
    rw [List.length_take, length]
    decide
  have light : emptyPage.total + pageSize (lines.take 65) ≤ 2 * maxHistoryPageBytes := by
    rw [front]
    decide
  have heavy : 1040000 + size lines[65] > 2 * maxHistoryPageBytes := by
    rw [last]
    decide
  have fold : lines.foldl NewestLines.add emptyPage =
      ((lines.take 65).foldl NewestLines.add emptyPage).add lines[65] := by
    conv_lhs => rw [split]
    rw [List.foldl_append, List.foldl_cons, List.foldl_nil]
  have filled : (lines.take 65).foldl NewestLines.add emptyPage =
      { emptyPage with lines := lines.take 65, total := 1040000 } := by
    rw [NewestLines.foldl_add_few few light fun _ _ => rfl, front]
    rfl
  have size : pageSize (lines.drop 34) = 512000 := size_drop length long 34
  rw [fold, filled, NewestLines.add_full rfl heavy,
    NewestLines.trim_eq (List.Perm.of_eq split.symm) ascending (longestSuffix_long length long), size]

/-- A short line takes the place of long lines that are newer. -/
theorem trim_short {short : AggregateLine} (small : size short = 1)
    (oldest : ∀ l ∈ lines, short.timestamp < l.timestamp) :
    ((lines ++ [short]).foldl NewestLines.add emptyPage).result = short :: lines.drop 34 := by
  have rest : (lines.drop 34).length = 32 := by rw [List.length_drop, length]
  let page : NewestLines AggregateLine := { emptyPage with lines := lines.drop 34, total := 512000 }
  have few : page.lines.length + [short].length < 2 * page.limit := by
    change (lines.drop 34).length + 1 < 80
    omega
  have light : page.total + pageSize [short] ≤ 2 * maxHistoryPageBytes := by
    rw [pageSize_cons, small]
    change 512000 + (1 + 0) ≤ _
    decide
  have added : [short].foldl NewestLines.add page =
      { page with lines := lines.drop 34 ++ [short], total := 512000 + pageSize [short] } :=
    NewestLines.foldl_add_few few light fun _ _ => rfl
  have order : (short :: lines.drop 34).Pairwise
      fun a b => HistoryLine.stamp a < HistoryLine.stamp b :=
    List.pairwise_cons.mpr ⟨fun l member => oldest l (List.mem_of_mem_drop member),
      ascending.sublist (List.drop_sublist 34 lines)⟩
  have fits : Fits maxHistoryPageBytes (short :: lines.drop 34) := by
    right
    rw [pageSize_cons, small, size_drop length long]
    decide
  have kept : longestSuffix (Fits maxHistoryPageBytes) (newest 40 (short :: lines.drop 34)) =
      short :: lines.drop 34 := by
    rw [newest_of_length_le (by rw [List.length_cons]; omega), longestSuffix_self fits]
  rw [List.foldl_append, foldl_add_long length long ascending, added, NewestLines.result,
    NewestLines.trim_eq (List.perm_append_singleton _ _) order kept]

end Long

theorem shortLine_lt {l : AggregateLine} (member : l ∈ longLines) :
    shortLine.timestamp < l.timestamp := by
  have stamp : l.timestamp ∈ longLines.map fun l => l.timestamp := List.mem_map_of_mem member
  rw [longLines_stamps] at stamp
  obtain ⟨i, listed, same⟩ := List.mem_map.mp stamp
  rw [List.mem_range'_1] at listed
  rw [← same]
  exact stampAt_lt (by omega) (by omega)

theorem skip_page : collectHistory (skipContainers.map Container.source) "" 40 =
    shortLine :: longLines.drop 34 := by
  have merge := foldl_source "" 40 (skipContainers.map Container.source) { page := emptyPage }
  have floor := floor_skip { page := emptyPage }
  have page : ((longLines ++ [shortLine]).foldl NewestLines.add emptyPage).result =
      shortLine :: longLines.drop 34 :=
    trim_short length_longLines size_longLines longLines_ascending List.length_replicate
      fun l => shortLine_lt
  have order : (shortLine :: longLines.drop 34).Pairwise fun a b => a.timestamp < b.timestamp :=
    List.pairwise_cons.mpr ⟨fun l member => shortLine_lt (List.mem_of_mem_drop member),
      longLines_ascending.sublist (List.drop_sublist 34 longLines)⟩
  have all : (shortLine :: longLines.drop 34).filter (fun l => "" ≤ l.timestamp) =
      shortLine :: longLines.drop 34 :=
    List.filter_eq_self.mpr fun l _ => decide_eq_true (empty_le _)
  rw [merged_skip] at merge
  unfold collectHistory
  rw [newNewestLines_empty]
  dsimp only
  rw [merge, floor, page, dropWhile_lt order, all]

/-- Nothing is left before the short line. -/
theorem skip_exhausted :
    collectHistory (skipContainers.map Container.source) shortLine.timestamp 40 = [] := by
  have cursor : Cursor shortLine.timestamp := .inr ⟨stampAt 0, rfl⟩
  have none (c : Container) (member : c ∈ skipContainers) : c.eligible shortLine.timestamp = [] := by
    refine List.filter_eq_nil_iff.mpr fun e listed old => ?_
    have stamp : shortLine.timestamp ≤ e.timestamp := by
      have tagged : c.tag e ∈ allLines skipContainers :=
        List.mem_flatMap.mpr ⟨c, member, List.mem_map_of_mem listed⟩
      rw [allLines_skip] at tagged
      rcases List.mem_append.mp tagged with long | last
      · exact (shortLine_lt long).le
      · exact (congrArg (fun l => l.timestamp) (List.mem_singleton.mp last)).ge
    exact not_lt.mpr stamp ((older_iff (text_ne_empty _) (c.tag e)).mp old)
  have nothing : merged (skipContainers.map Container.source) shortLine.timestamp 40 = [] := by
    rw [merged, List.flatMap_map]
    refine List.flatMap_eq_nil_iff.mpr fun c member => ?_
    have spared : c.CursorSpared shortLine.timestamp 40 := by
      intro pre l page at_ _ _ cut
      rw [none c member] at cut
      exact absurd cut.symm (List.append_ne_nil_of_right_ne_nil pre (List.cons_ne_nil l page))
    have empty := (fetchLogHistory_pageOf c cursor (by decide) spared).suffix
    rw [none c member, List.suffix_nil] at empty
    rw [fetchSourceHistory_eq, empty, List.map_nil]
  have merge := foldl_source shortLine.timestamp 40 (skipContainers.map Container.source)
    { page := newNewestLines shortLine.timestamp 40 }
  rw [nothing, List.foldl_nil] at merge
  have result : (newNewestLines (α := AggregateLine) shortLine.timestamp 40).result = [] :=
    List.eq_nil_iff_forall_not_mem.mpr fun l member =>
      List.not_mem_nil (NewestLines.mem_of_mem_trim member)
  unfold collectHistory
  dsimp only
  rw [merge, result, List.dropWhile_nil]

/-- The pages of an unlucky merge order lose lines. -/
theorem history_skips_lines :
    ¬∀ containers : List Container, ((allLines containers).map fun l => l.timestamp).Nodup →
      ∀ limit, 1 ≤ limit → ∀ calls : List (List Container), (∀ call ∈ calls, call.Perm containers) →
        (allLines containers).length < calls.length →
          (containerHistory limit "" calls).flatten.Perm (allLines containers) ∧
            ∀ page ∈ containerHistory limit "" calls,
              page.Pairwise (fun a b => a.timestamp < b.timestamp) ∧ page.length ≤ limit := by
  intro all
  have count : (allLines skipContainers).length = 67 := by
    rw [allLines_skip, List.length_append, length_longLines, List.length_singleton]
  have ascending : (shortLine :: longLines).Pairwise fun a b => a.timestamp < b.timestamp :=
    List.pairwise_cons.mpr ⟨fun l => shortLine_lt, longLines_ascending⟩
  have distinct : ((allLines skipContainers).map fun l => l.timestamp).Nodup := by
    rw [allLines_skip, ((List.perm_append_singleton shortLine longLines).map _).nodup_iff]
    exact List.pairwise_map.mpr (ascending.imp fun less => less.ne)
  have complete := (all skipContainers distinct 40 (by decide) (List.replicate 68 skipContainers)
    (fun call member => by rw [List.eq_of_mem_replicate member])
    (by rw [count, List.length_replicate]; decide)).1.length_eq
  have pages : containerHistory 40 "" (List.replicate 68 skipContainers) =
      [shortLine :: longLines.drop 34] := by
    rw [containerHistory, List.map_replicate, List.replicate_succ, history, skip_page]
    dsimp only
    rw [List.replicate_succ, history, skip_exhausted]
  rw [pages, count, List.flatten_singleton, List.length_cons, List.length_drop, length_longLines]
    at complete
  cases complete

end Dockgraph.Api
