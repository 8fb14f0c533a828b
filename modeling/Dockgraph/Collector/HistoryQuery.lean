import Dockgraph.Collector.HistoryOrder

/-!
# History queries (`collector/stats_history.go`)

A query thins its points until the answer fits. The names that count depend on the points that are left.
-/
namespace Dockgraph.Collector

/-- `ContainerTimeSeries`: parallel arrays. -/
structure ContainerTimeSeries where
  cpu : List ℚ := []
  mem : List Nat := []
  netRx : List Nat := []
  netTx : List Nat := []
  blockRead : List Nat := []
  blockWrite : List Nat := []

structure HistoryResult where
  timestamps : List Int := []
  containers : Finmap fun _ : String => ContainerTimeSeries := ∅

/-- The Unix epoch, in seconds since the zero time. -/
def unixEpoch : Int := 62_135_596_800

/-- `Time.Unix` -/
def unix (time : Int) : Int := time / 1_000_000_000 - unixEpoch

/-- `p.Stats[name]` -/
def HistoryPoint.sample (p : HistoryPoint) (name : String) : ContainerStats :=
  (p.stats.lookup name).getD .zero

def ContainerTimeSeries.append (ts : ContainerTimeSeries) (s : ContainerStats) : ContainerTimeSeries where
  cpu := ts.cpu ++ [s.cpuPercent]
  mem := ts.mem ++ [s.memUsage]
  netRx := ts.netRx ++ [s.netRx]
  netTx := ts.netTx ++ [s.netTx]
  blockRead := ts.blockRead ++ [s.blockRead]
  blockWrite := ts.blockWrite ++ [s.blockWrite]

/-- Body of the loop over the points that are left. -/
def HistoryResult.add (names : Finset String) (result : HistoryResult) (p : HistoryPoint) : HistoryResult where
  timestamps := result.timestamps ++ [unix p.time]
  containers := MapLoop.writeKeys (fun name ts => (ts.getD {}).append (p.sample name)) names result.containers

/-- `keep == nil || keep(name)` -/
def accepts (keep : Option (String → Bool)) (name : String) : Bool :=
  keep.all fun keep => keep name

/-- What `everyNth` returns. -/
structure Thinned where
  kept : List HistoryPoint := []
  names : Finset String := ∅

def Thinned.add (keep : Option (String → Bool)) (t : Thinned) (p : HistoryPoint) : Thinned where
  kept := t.kept ++ [p]
  names := t.names ∪ p.stats.keys.filter (accepts keep ·)

namespace StatsHistory

/-- The loop of `everyNth`. -/
def visitEvery (points : List HistoryPoint) (keep : Option (String → Bool)) {step : Nat} (positive : 0 < step)
    (i : Nat) (t : Thinned) : Thinned :=
  if inside : i < points.length then visitEvery points keep positive (i + step) (t.add keep points[i])
  else t
termination_by points.length - i

def everyNth (points : List HistoryPoint) {step : Nat} (positive : 0 < step) (keep : Option (String → Bool)) :
    Thinned :=
  if points.length = 0 then {}
  else visitEvery points keep positive ((points.length - 1) % step) {}

/-- What the loop picks. -/
structure Picks (points : List HistoryPoint) (step i : Nat) (picked : List HistoryPoint) : Prop where
  sublist : picked.Sublist (points.drop i)
  newest : i < points.length → step ∣ points.length - 1 - i → picked.getLast? = points.getLast?
  whole : step = 1 → picked = points.drop i
  single : points.length ≤ i + step → picked.length ≤ 1

theorem visitEvery_eq (points : List HistoryPoint) (keep : Option (String → Bool)) {step : Nat}
    (positive : 0 < step) (i : Nat) (t : Thinned) :
    ∃ picked, Picks points step i picked ∧
      visitEvery points keep positive i t = picked.foldl (Thinned.add keep) t := by
  fun_induction visitEvery with
  | case1 i t inside ih =>
    obtain ⟨picked, picks, eq⟩ := ih
    have rest : points.drop i = points[i] :: points.drop (i + 1) := List.drop_eq_getElem_cons inside
    have later : (points.drop (i + step)).Sublist (points.drop (i + 1)) :=
      List.drop_sublist_drop_left points (by omega)
    refine ⟨points[i] :: picked, ⟨?_, fun _ divides => ?_, fun one => ?_, fun short => ?_⟩, eq⟩
    · rw [rest]
      exact (picks.sublist.trans later).cons_cons _
    · by_cases more : i + step < points.length
      · have next : points.length - 1 - (i + step) = points.length - 1 - i - step := by omega
        have newest := picks.newest more (next ▸ Nat.dvd_sub divides (Nat.dvd_refl step))
        have some : picked ≠ [] := fun nil => by
          rw [nil, List.getLast?_nil, eq_comm, List.getLast?_eq_none_iff] at newest
          simp [newest] at inside
        rw [List.getLast?_cons_of_ne_nil some, newest]
      · -- nothing is left, and the distance to the last point is less than a step
        have last : points.length - 1 - i = 0 := Nat.eq_zero_of_dvd_of_lt divides (by omega)
        have none : picked = [] := by
          have := picks.sublist
          rw [List.drop_eq_nil_of_le (by omega)] at this
          exact List.sublist_nil.mp this
        rw [none, List.getLast?_singleton, List.getLast?_eq_getElem?, List.getElem?_eq_getElem (by omega)]
        congr 2
        omega
    · rw [rest, picks.whole one, one]
    · have none : picked = [] := by
        have := picks.sublist
        rw [List.drop_eq_nil_of_le short] at this
        exact List.sublist_nil.mp this
      rw [none]
      rfl
  | case2 i t outside =>
    refine ⟨[], ⟨List.nil_sublist _, fun inside => absurd inside outside, fun _ => ?_, fun _ => ?_⟩, rfl⟩
    · exact (List.drop_eq_nil_of_le (not_lt.mp outside)).symm
    · exact Nat.zero_le 1

theorem foldl_add (keep : Option (String → Bool)) (picked : List HistoryPoint) (t : Thinned) :
    (picked.foldl (Thinned.add keep) t).kept = t.kept ++ picked ∧
      ∀ name, name ∈ (picked.foldl (Thinned.add keep) t).names ↔
        name ∈ t.names ∨ accepts keep name ∧ ∃ p ∈ picked, name ∈ p.stats := by
  induction picked generalizing t with
  | nil => simp
  | cons p picked ih =>
    obtain ⟨kept, names⟩ := ih (t.add keep p)
    constructor
    · rw [List.foldl_cons, kept, Thinned.add, List.append_assoc, List.singleton_append]
    · intro name
      rw [List.foldl_cons, names, Thinned.add, Finset.mem_union, Finset.mem_filter, Finmap.mem_keys]
      rw [List.exists_mem_cons_iff]
      tauto

theorem everyNth_eq (points : List HistoryPoint) (keep : Option (String → Bool)) {step : Nat}
    (positive : 0 < step) :
    let t := everyNth points positive keep
    t.kept.Sublist points ∧ t.kept.getLast? = points.getLast? ∧ (step = 1 → t.kept = points) ∧
      (points.length ≤ step → t.kept.length ≤ 1) ∧
      ∀ name, name ∈ t.names ↔ accepts keep name ∧ ∃ p ∈ t.kept, name ∈ p.stats := by
  intro t
  by_cases empty : points.length = 0
  · have none : t = {} := if_pos empty
    rw [none, List.length_eq_zero_iff.mp empty]
    simp
  · obtain ⟨picked, picks, eq⟩ :=
      visitEvery_eq points keep positive ((points.length - 1) % step) {}
    have made : t = picked.foldl (Thinned.add keep) {} := (if_neg empty).trans eq
    obtain ⟨kept, names⟩ := foldl_add keep picked {}
    rw [← made, List.nil_append] at kept
    have least := Nat.mod_le (points.length - 1) step
    refine ⟨?_, ?_, fun one => ?_, fun short => ?_, fun name => ?_⟩
    · rw [kept]
      exact picks.sublist.trans (List.drop_sublist _ _)
    · rw [kept]
      exact picks.newest (by omega) (Nat.dvd_sub_mod _)
    · rw [kept, picks.whole one, one, Nat.mod_one, List.drop_zero]
    · rw [kept]
      refine picks.single ?_
      rw [Nat.mod_eq_of_lt (by omega)]
      omega
    · rw [kept, made, names]
      simp

/-- The loop of `Query`. The step doubles until it would leave one point. -/
def thin (maxQueryCells : Int) (inRange : List HistoryPoint) (keep : Option (String → Bool)) {step : Nat}
    (positive : 0 < step) : Thinned :=
  let t := everyNth inRange positive keep
  if t.names.card * t.kept.length ≤ maxQueryCells ∨ t.kept.length ≤ 1 then t
  else thin maxQueryCells inRange keep (Nat.mul_pos positive Nat.two_pos)
termination_by inRange.length - step
decreasing_by
  next many =>
    obtain ⟨-, -, -, single, -⟩ := everyNth_eq inRange keep positive
    have short : step < inRange.length := by
      by_contra long
      exact many (.inr (single (not_lt.mp long)))
    omega

def query (maxQueryCells : Int) (h : StatsHistory) (from' to' : Int) (keep : Option (String → Bool)) :
    HistoryResult :=
  let inRange := h.points.filter fun p => (p.time = from' ∨ p.time > from') ∧ (p.time = to' ∨ p.time < to')
  let t := thin maxQueryCells inRange keep Nat.one_pos
  t.kept.foldl (HistoryResult.add t.names) {}

theorem thin_eq (maxQueryCells : Int) (inRange : List HistoryPoint) (keep : Option (String → Bool)) {step : Nat}
    (positive : 0 < step) :
    let t := thin maxQueryCells inRange keep positive
    (∃ (n : Nat) (positive : 0 < n), t = everyNth inRange positive keep) ∧
      (t.names.card * t.kept.length ≤ maxQueryCells ∨ t.kept.length ≤ 1) ∧
      ((everyNth inRange positive keep).names.card * (everyNth inRange positive keep).kept.length ≤
        maxQueryCells → t = everyNth inRange positive keep) := by
  fun_induction thin with
  | case1 step positive t fits => exact ⟨⟨step, positive, rfl⟩, fits, fun _ => rfl⟩
  | case2 step positive t many ih =>
    exact ⟨ih.1, ih.2.1, fun fits => absurd (.inl fits) many⟩

end StatsHistory

/-- The series of a container that showed these samples. -/
def ContainerTimeSeries.of (samples : List ContainerStats) : ContainerTimeSeries where
  cpu := samples.map (·.cpuPercent)
  mem := samples.map (·.memUsage)
  netRx := samples.map (·.netRx)
  netTx := samples.map (·.netTx)
  blockRead := samples.map (·.blockRead)
  blockWrite := samples.map (·.blockWrite)

theorem ContainerTimeSeries.of_concat (samples : List ContainerStats) (s : ContainerStats) :
    of (samples ++ [s]) = (of samples).append s := by
  simp [of, append]

namespace StatsHistory

theorem foldl_result (names : Finset String) (kept : List HistoryPoint) :
    let result := kept.foldl (HistoryResult.add names) {}
    result.timestamps = kept.map (unix ·.time) ∧
      ∀ name, result.containers.lookup name =
        if name ∈ names ∧ kept ≠ [] then some (.of (kept.map (·.sample name))) else none := by
  induction kept using List.reverseRecOn with
  | nil => simp
  | append_singleton kept p ih =>
    obtain ⟨timestamps, containers⟩ := ih
    intro result
    have made : result = (kept.foldl (HistoryResult.add names) {}).add names p := by
      rw [← List.foldl_concat (HistoryResult.add names)]
    rw [made]
    constructor
    · rw [HistoryResult.add, timestamps, List.map_append, List.map_singleton]
    · intro name
      have more : kept ++ [p] ≠ [] := List.append_ne_nil_of_right_ne_nil _ (List.cons_ne_nil _ _)
      rw [HistoryResult.add, MapLoop.lookup_writeKeys, containers, List.map_append, List.map_singleton,
        ContainerTimeSeries.of_concat]
      -- the series of a name starts at the first point
      by_cases named : name ∈ names
      · have before : (if name ∈ names ∧ kept ≠ [] then
            some (ContainerTimeSeries.of (kept.map (·.sample name))) else none).getD {} =
              .of (kept.map (·.sample name)) := by
          by_cases first : kept = []
          · rw [if_neg fun both => both.2 first, first]
            rfl
          · rw [if_pos ⟨named, first⟩, Option.getD_some]
        rw [if_pos named, before, if_pos ⟨named, more⟩]
      · rw [if_neg named, if_neg fun both => named both.1, if_neg fun both => named both.1]

theorem newest_of_getLast? {points : List HistoryPoint} (ordered : points.Pairwise fun p q => p.time ≤ q.time)
    {newest : HistoryPoint} (last : points.getLast? = some newest) : ∀ p ∈ points, p.time ≤ newest.time := by
  intro p member
  obtain ⟨front, rfl⟩ := List.getLast?_eq_some_iff.mp last
  rcases List.mem_append.mp member with earlier | same
  · exact (List.pairwise_append.mp ordered).2.2 p earlier newest (List.mem_singleton_self newest)
  · rw [List.mem_singleton.mp same]

/-- The points hold a name that `keep` accepts. -/
def Held (keep : Option (String → Bool)) (points : List HistoryPoint) (name : String) : Prop :=
  accepts keep name ∧ ∃ p ∈ points, name ∈ p.stats

/-- The result has the values of the points kept, of those in the range. -/
structure Answers (maxQueryCells : Int) (keep : Option (String → Bool)) (inRange kept : List HistoryPoint)
    (result : HistoryResult) : Prop where
  sublist : kept.Sublist inRange
  newest : inRange ≠ [] → ∃ newest ∈ kept, ∀ p ∈ inRange, p.time ≤ newest.time
  timestamps : result.timestamps = kept.map (unix ·.time)
  series : ∀ name, Held keep kept name →
    result.containers.lookup name = some (.of (kept.map (·.sample name)))
  others : ∀ name, ¬Held keep kept name → result.containers.lookup name = none
  bounded : result.containers.keys.card * kept.length ≤ maxQueryCells ∨ kept.length ≤ 1
  whole : ∀ names : Finset String, (∀ name, name ∈ names ↔ Held keep inRange name) →
    names.card * inRange.length ≤ maxQueryCells → kept = inRange

theorem query_answers (maxQueryCells : Int) {h : StatsHistory}
    (ordered : h.points.Pairwise fun p q => p.time ≤ q.time) (from' to' : Int) (keep : Option (String → Bool)) :
    ∃ kept, Answers maxQueryCells keep (h.points.filter fun p => from' ≤ p.time ∧ p.time ≤ to') kept
      (h.query maxQueryCells from' to' keep) := by
  let inRange := h.points.filter fun p => from' ≤ p.time ∧ p.time ≤ to'
  let result := h.query maxQueryCells from' to' keep
  have range : h.points.filter (fun p => (p.time = from' ∨ p.time > from') ∧ (p.time = to' ∨ p.time < to')) =
      inRange := by
    refine List.filter_congr fun p _ => decide_eq_decide.mpr ?_
    omega
  let t := thin maxQueryCells inRange keep Nat.one_pos
  have answer : result = t.kept.foldl (HistoryResult.add t.names) {} := by
    rw [show result = h.query maxQueryCells from' to' keep from rfl, query, range]
  obtain ⟨⟨n, positive, every⟩, fits, first⟩ := thin_eq maxQueryCells inRange keep Nat.one_pos
  obtain ⟨sublist, last, -, -, names⟩ := everyNth_eq inRange keep positive
  rw [← every] at sublist last names
  obtain ⟨-, -, whole, -, all⟩ := everyNth_eq inRange keep Nat.one_pos
  obtain ⟨timestamps, containers⟩ := foldl_result t.names t.kept
  rw [← answer] at timestamps containers
  -- the size that the loop bounds is at least that of the result
  have fewer : result.containers.keys ⊆ t.names := fun name member => by
    rw [Finmap.mem_keys, ← Finmap.lookup_isSome, containers] at member
    by_contra absent
    rw [if_neg fun both => absent both.1] at member
    cases member
  refine ⟨t.kept, sublist, fun nonempty => ?_, timestamps, fun name held => ?_, fun name absent => ?_,
    fits.imp_left fun fits => ?_, fun accepted same fits => ?_⟩
  · have newest := List.getLast?_eq_some_getLast nonempty
    refine ⟨_, List.mem_of_getLast? (last.trans newest), newest_of_getLast? ?_ newest⟩
    exact ordered.sublist List.filter_sublist
  · obtain ⟨p, member, -⟩ := held.2
    rw [containers, if_pos ⟨(names name).mpr held, List.ne_nil_of_mem member⟩]
  · rw [containers, if_neg fun both => absent ((names name).mp both.1)]
  · refine le_trans ?_ fits
    have := Nat.mul_le_mul_right t.kept.length (Finset.card_le_card fewer)
    exact_mod_cast this
  · have unthinned := whole rfl
    -- a first try with all the points fits
    have equal : (everyNth inRange Nat.one_pos keep).names = accepted := Finset.ext fun name => by
      rw [all, same, unthinned, Held]
    rw [← equal] at fits
    refine (congrArg Thinned.kept (first ?_)).trans unthinned
    rwa [unthinned]

/-- Three points of two containers, at most two of six values. -/
theorem query_answers_thinned :
    let stats : Finmap fun _ : String => ContainerStats := (Finmap.singleton "web" .zero).insert "db" .zero
    let points : List HistoryPoint := [⟨0, stats⟩, ⟨1, stats⟩, ⟨2, stats⟩]
    ∃ kept, Answers 2 none (points.filter fun p => 0 ≤ p.time ∧ p.time ≤ 5) kept
      (query 2 { points, retention := hour } 0 5 none) := by
  intro stats points
  have ordered : points.Pairwise fun p q => p.time ≤ q.time := by decide
  exact query_answers 2 (h := { points, retention := hour }) ordered 0 5 none

end StatsHistory

end Dockgraph.Collector
