import Dockgraph.Collector.StatsHistory
import Dockgraph.Library.Suffix
import Mathlib.Algebra.Order.Group.Int

/-!
# The history stays in order

Points are in time order, since a bucket's start is not before the bucket ahead of it ends. Evict and
Downsample may therefore stop at the first point that is new enough.
-/
namespace Dockgraph.Collector.StatsHistory

/-! ## Runs -/

inductive Op
  /-- The clock goes on. -/
  | tick (d : Nat)
  | record (snap : StatsSnapshot)
  | evict
  | downsample (bucketWidth : Int) (positive : 0 < bucketWidth)

/-- The history and the clock. -/
structure Recording where
  now : Int
  history : StatsHistory

def step (maxHistorySamples : Int) (r : Recording) : Op → Recording
  | .tick d => { r with now := r.now + d }
  | .record snap => { r with history := r.history.record maxHistorySamples r.now snap }
  | .evict => { r with history := r.history.evict r.now }
  | .downsample bucketWidth _ => { r with history := r.history.downsample r.now bucketWidth }

def run (maxHistorySamples retention now : Int) (ops : List Op) : Recording :=
  ops.foldl (step maxHistorySamples) { now, history := { retention } }

def sizes (points : List HistoryPoint) : Int := (points.map (·.size)).sum

structure Sound (r : Recording) : Prop where
  ordered : r.history.points.Pairwise fun p q => p.time ≤ q.time
  past : ∀ p ∈ r.history.points, p.time ≤ r.now
  counted : r.history.samples = sizes r.history.points

/-! ## Record and Evict -/

theorem dropExcess_eq (maxHistorySamples : Int) {points : List HistoryPoint} {samples : Int}
    (counted : samples = sizes points) :
    let kept := dropExcess maxHistorySamples points samples
    kept.1 <:+ points ∧ kept.2 = sizes kept.1 ∧
      (points ≠ [] → kept.2 ≤ maxHistorySamples ∨ kept.1.length = 1) := by
  induction points generalizing samples with
  | nil => exact ⟨List.suffix_rfl, counted, fun some => absurd rfl some⟩
  | cons p points ih =>
    cases points with
    | nil => exact ⟨List.suffix_rfl, counted, fun _ => .inr rfl⟩
    | cons q rest =>
      rw [dropExcess]
      split
      next surplus =>
        have fewer : samples - p.size = sizes (q :: rest) := by
          simp only [counted, sizes, List.map_cons, List.sum_cons]
          omega
        obtain ⟨suffix, kept, bound⟩ := ih fewer
        exact ⟨suffix.trans (List.suffix_cons _ _), kept, fun _ => bound (List.cons_ne_nil _ _)⟩
      next within => exact ⟨List.suffix_rfl, counted, fun _ => .inl (not_lt.mp within)⟩

theorem dropBefore_eq (cutoff : Int) (points : List HistoryPoint) {samples : Int}
    (counted : samples = sizes points) :
    dropBefore cutoff points samples =
      (points.dropWhile (·.time < cutoff), sizes (points.dropWhile (·.time < cutoff))) := by
  induction points generalizing samples with
  | nil => rw [counted]; rfl
  | cons p points ih =>
    rw [dropBefore, List.dropWhile_cons]
    by_cases old : p.time < cutoff
    · have fewer : samples - p.size = sizes points := by
        simp only [counted, sizes, List.map_cons, List.sum_cons]
        omega
      simp [old, ih fewer]
    · simp [old, counted]

theorem record_spec (maxHistorySamples ts : Int) (snap : StatsSnapshot) {h : StatsHistory}
    (counted : h.samples = sizes h.points) :
    (h.record maxHistorySamples ts snap).points <:+ h.points ++ [{ time := ts, stats := snap.stats }] ∧
      (h.record maxHistorySamples ts snap).samples =
        sizes (h.record maxHistorySamples ts snap).points ∧
      ((h.record maxHistorySamples ts snap).samples ≤ maxHistorySamples ∨
        (h.record maxHistorySamples ts snap).points.length = 1) := by
  have total : h.samples + HistoryPoint.size { time := ts, stats := snap.stats } =
      sizes (h.points ++ [{ time := ts, stats := snap.stats }]) := by
    simp [sizes, counted]
  obtain ⟨suffix, kept, bound⟩ := dropExcess_eq maxHistorySamples total
  exact ⟨suffix, kept, bound (by simp)⟩

theorem evict_points {r : Recording} (sound : Sound r) :
    (r.history.evict r.now).points =
      r.history.points.filter fun p => r.now - r.history.retention ≤ p.time := by
  rw [evict, dropBefore_eq _ _ sound.counted]
  exact Suffix.dropWhile_lt_of_le sound.ordered _

/-! ## Buckets -/

theorem truncate_eq (time width : Int) : truncate time width = width * (time / width) := by
  rw [truncate, Int.emod_def]
  omega

section Width

variable {width : Int} (positive : 0 < width)
include positive

theorem truncate_le (time : Int) : truncate time width ≤ time := by
  have nonneg := Int.emod_nonneg time positive.ne'
  rw [truncate]
  omega

theorem lt_truncate_add (time : Int) : time < truncate time width + width := by
  have less := Int.emod_lt_of_pos time positive
  rw [truncate]
  omega

theorem truncate_mono {s t : Int} (before : s ≤ t) : truncate s width ≤ truncate t width := by
  rw [truncate_eq, truncate_eq]
  exact Int.mul_le_mul_of_nonneg_left (Int.ediv_le_ediv positive before) positive.le

theorem truncate_truncate (time : Int) : truncate (truncate time width) width = truncate time width := by
  rw [truncate_eq time, truncate_eq, Int.mul_ediv_cancel_left _ positive.ne']

/-- A time in the bucket of another one. -/
theorem truncate_of_lt {s t : Int} (before : s ≤ t) (inside : t < truncate s width + width) :
    truncate t width = truncate s width := by
  have low := truncate_mono positive before
  have high : t / width < s / width + 1 := by
    refine Int.ediv_lt_of_lt_mul positive ?_
    rw [truncate_eq] at inside
    rw [Int.add_mul, Int.one_mul, Int.mul_comm]
    exact inside
  have high' := Int.mul_le_mul_of_nonneg_left (Int.lt_add_one_iff.mp high) positive.le
  rw [truncate_eq, truncate_eq] at low ⊢
  omega

end Width

/-- The memory values and counters. -/
def gauges (s : ContainerStats) : ContainerStats := { s with cpuPercent := 0, cpuThrottled := 0 }

/-- What the points last say of a container. -/
def last (name : String) (points : List HistoryPoint) : Option ContainerStats :=
  points.reverse.findSome? fun p => p.stats.lookup name

/-- What the points of one bucket last say of a container. -/
def newest (width start : Int) (name : String) (points : List HistoryPoint) : Option ContainerStats :=
  last name (points.filter fun p => truncate p.time width = start)

theorem last_append (name : String) (xs ys : List HistoryPoint) :
    last name (xs ++ ys) = (last name ys).or (last name xs) := by
  rw [last, List.reverse_append, List.findSome?_append]
  rfl

theorem newest_append (width start : Int) (name : String) (xs ys : List HistoryPoint) :
    newest width start name (xs ++ ys) =
      (newest width start name ys).or (newest width start name xs) := by
  rw [newest, List.filter_append, last_append]
  rfl

theorem last_single (name : String) (p : HistoryPoint) : last name [p] = p.stats.lookup name := by
  cases found : p.stats.lookup name <;> simp [last, found]

@[simp] theorem gauges_observe (existing s : ContainerStats) :
    gauges (existing.observe s) = gauges s := rfl

theorem lookup_merged (points : List HistoryPoint) (name : String) :
    ((points.foldl Merging.add {}).merged.lookup name).map gauges = (last name points).map gauges := by
  induction points using List.reverseRecOn with
  | nil => rfl
  | append_singleton points p ih =>
    rw [List.foldl_append, List.foldl_cons, List.foldl_nil, last_append, last_single, Merging.add,
      MapLoop.lookup_writeEach]
    cases p.stats.lookup name with
    | none => exact ih
    | some s => rfl

/-- A bucket keeps what its points last say. -/
theorem lookup_downsampleBucket (ts : Int) (points : List HistoryPoint) (name : String) :
    ((downsampleBucket ts points).stats.lookup name).map gauges = (last name points).map gauges := by
  rw [← lookup_merged, downsampleBucket, MapLoop.lookup_writeEach]
  cases (points.foldl Merging.add {}).merged.lookup name <;> rfl

/-- The buckets hold what the points seen so far last say. -/
structure Filled (width : Int) (b : Buckets) (seen : List HistoryPoint) : Prop where
  some : b.bucket ≠ []
  together : ∀ p ∈ b.bucket, truncate p.time width = b.bucketStart
  ordered : b.downsampled.Pairwise fun p q => p.time ≤ q.time
  before : ∀ d ∈ b.downsampled, d.time ≤ b.bucketStart
  split : ∃ closed, seen = closed ++ b.bucket ∧ ∀ start name,
    (newest width start name b.downsampled).map gauges = (newest width start name closed).map gauges

section Buckets

variable {width : Int} {b : Buckets} {seen : List HistoryPoint}

theorem Filled.close_eq (filled : Filled width b seen) :
    b.close = b.downsampled ++ [downsampleBucket b.bucketStart b.bucket] :=
  if_pos (List.length_pos_iff.mpr filled.some)

theorem Filled.close_ordered (filled : Filled width b seen) :
    b.close.Pairwise (fun p q => p.time ≤ q.time) ∧ ∀ d ∈ b.close, d.time ≤ b.bucketStart := by
  rw [filled.close_eq]
  constructor
  · refine List.pairwise_append.mpr ⟨filled.ordered, List.pairwise_singleton _ _, ?_⟩
    intro d member q single
    rw [List.mem_singleton.mp single]
    exact filled.before d member
  · intro d member
    rcases List.mem_append.mp member with closed | new
    · exact filled.before d closed
    · rw [List.mem_singleton.mp new]
      exact le_rfl

/-- The bucket under way starts at or before a point seen. -/
theorem Filled.exists_start (positive : 0 < width) (filled : Filled width b seen) :
    ∃ p ∈ seen, p ∈ b.bucket ∧ b.bucketStart = truncate p.time width ∧ b.bucketStart ≤ p.time := by
  obtain ⟨p, member⟩ := List.exists_mem_of_ne_nil _ filled.some
  obtain ⟨closed, rfl, -⟩ := filled.split
  have start := filled.together p member
  exact ⟨p, List.mem_append_right _ member, member, start.symm, start ▸ truncate_le positive p.time⟩

theorem Filled.newest_close (positive : 0 < width) (filled : Filled width b seen) (start : Int)
    (name : String) :
    (newest width start name b.close).map gauges = (newest width start name seen).map gauges := by
  obtain ⟨p, -, -, first, -⟩ := filled.exists_start positive
  obtain ⟨closed, rfl, same⟩ := filled.split
  have bucket : (newest width start name [downsampleBucket b.bucketStart b.bucket]).map gauges =
      (newest width start name b.bucket).map gauges := by
    have aligned : truncate (downsampleBucket b.bucketStart b.bucket).time width = b.bucketStart := by
      change truncate b.bucketStart width = _
      rw [first, truncate_truncate positive]
    by_cases here : b.bucketStart = start
    · subst here
      have all : b.bucket.filter (fun p => truncate p.time width = b.bucketStart) = b.bucket :=
        List.filter_eq_self.mpr fun p member => by simpa using filled.together p member
      rw [newest, newest, all, List.filter_cons_of_pos (by simpa using aligned), List.filter_nil,
        last_single, lookup_downsampleBucket]
    · have none : b.bucket.filter (fun p => truncate p.time width = start) = [] :=
        List.filter_eq_nil_iff.mpr fun p member => by simpa [filled.together p member] using here
      rw [newest, newest, none, List.filter_cons_of_neg (by simpa [aligned] using here), List.filter_nil]
  rw [filled.close_eq, newest_append, newest_append, Option.map_or, Option.map_or, bucket, same]

theorem Filled.add (positive : 0 < width) (filled : Filled width b seen) {p : HistoryPoint}
    (late : ∀ q ∈ seen, q.time ≤ p.time) : Filled width (b.add width p) (seen ++ [p]) := by
  obtain ⟨q, member, -, first, start⟩ := filled.exists_start positive
  have later := late q member
  rw [Buckets.add]
  split
  next inside =>
    obtain ⟨closed, rfl, same⟩ := filled.split
    refine ⟨by simp, fun r listed => ?_, filled.ordered, filled.before,
      closed, List.append_assoc _ _ _, same⟩
    rcases List.mem_append.mp listed with old | new
    · exact filled.together r old
    · rw [List.mem_singleton.mp new, first]
      exact truncate_of_lt positive later (first ▸ inside)
  next past =>
    obtain ⟨ordered, before⟩ := filled.close_ordered
    refine ⟨List.cons_ne_nil _ _, by simp, ordered, fun d listed => ?_,
      seen, rfl, filled.newest_close positive⟩
    exact (before d listed).trans (first ▸ truncate_mono positive later)

theorem filled_foldl (positive : 0 < width) {first : HistoryPoint} {rest : List HistoryPoint}
    (ordered : (first :: rest).Pairwise fun p q => p.time ≤ q.time) :
    Filled width ((first :: rest).foldl (Buckets.add width)
      { bucketStart := truncate first.time width }) (first :: rest) := by
  induction rest using List.reverseRecOn with
  | nil =>
    have inside := lt_truncate_add positive first.time
    simp only [List.foldl_cons, List.foldl_nil, Buckets.add, if_pos inside]
    exact ⟨List.cons_ne_nil _ _, by simp, List.Pairwise.nil, by simp, [], rfl, fun _ _ => rfl⟩
  | append_singleton rest p ih =>
    rw [← List.cons_append] at ordered ⊢
    obtain ⟨earlier, -, late⟩ := List.pairwise_append.mp ordered
    rw [List.foldl_append]
    exact (ih earlier).add positive fun q member => late q member p (List.mem_singleton_self p)

end Buckets

/-- The points older than an hour are replaced by older ones that say the same, the others stay. -/
theorem downsample_spec {h : StatsHistory} {width : Int} (now : Int) (positive : 0 < width)
    (ordered : h.points.Pairwise fun p q => p.time ≤ q.time) (counted : h.samples = sizes h.points) :
    (h.downsample now width).samples = sizes (h.downsample now width).points ∧
    ∃ front, (h.downsample now width).points =
        front ++ h.points.filter (fun p => now - hour ≤ p.time) ∧
      front.Pairwise (fun p q => p.time ≤ q.time) ∧ (∀ d ∈ front, d.time < now - hour) ∧
      ∀ start name, (newest width start name front).map gauges =
        (newest width start name (h.points.filter fun p => p.time < now - hour)).map gauges := by
  have old := Suffix.takeWhile_lt_of_le ordered (now - hour)
  have recent := Suffix.dropWhile_lt_of_le ordered (now - hour)
  have sorted := ordered.sublist (List.takeWhile_sublist fun p => p.time < now - hour)
  have early : ∀ p ∈ h.points.takeWhile (·.time < now - hour), p.time < now - hour := by
    intro p member
    rw [old] at member
    simpa using (List.mem_filter.mp member).2
  rw [downsample]
  split
  next first second rest taken =>
    rw [taken] at sorted early
    have filled := filled_foldl positive sorted
    refine ⟨rfl, _, by rw [taken, recent], filled.close_ordered.1, fun d member => ?_, ?_⟩
    · obtain ⟨p, listed, -, -, start⟩ := filled.exists_start positive
      have bound := filled.close_ordered.2 d member
      have soon := early p listed
      omega
    · intro start name
      rw [← old, taken]
      exact filled.newest_close positive start name
  · refine ⟨counted, _, ?_, sorted, early, fun start name => by rw [old]⟩
    rw [← recent]
    exact List.takeWhile_append_dropWhile.symm

/-! ## The invariant along a run -/

theorem sound_record {r : Recording} (sound : Sound r) (maxHistorySamples : Int) (snap : StatsSnapshot) :
    Sound { r with history := r.history.record maxHistorySamples r.now snap } := by
  obtain ⟨suffix, counted, -⟩ := record_spec maxHistorySamples r.now snap sound.counted
  let p : HistoryPoint := { time := r.now, stats := snap.stats }
  have past : ∀ q ∈ r.history.points ++ [p], q.time ≤ r.now := by
    intro q member
    rcases List.mem_append.mp member with old | new
    · exact sound.past q old
    · rw [List.mem_singleton.mp new]
  have ordered : (r.history.points ++ [p]).Pairwise fun p q => p.time ≤ q.time := by
    refine List.pairwise_append.mpr ⟨sound.ordered, List.pairwise_singleton _ _, ?_⟩
    intro q old new single
    rw [List.mem_singleton.mp single]
    exact sound.past q old
  exact ⟨ordered.sublist suffix.sublist, fun q member => past q (suffix.subset member), counted⟩

theorem sound_evict {r : Recording} (sound : Sound r) :
    Sound { r with history := r.history.evict r.now } := by
  have kept := List.dropWhile_sublist (l := r.history.points)
    fun p => decide (p.time < r.now - r.history.retention)
  have same : (r.history.evict r.now).points =
      r.history.points.dropWhile fun p => p.time < r.now - r.history.retention := by
    rw [evict, dropBefore_eq _ _ sound.counted]
  refine ⟨?_, fun p member => sound.past p (kept.subset (same ▸ member)), ?_⟩
  · rw [same]
    exact sound.ordered.sublist kept
  · rw [evict, dropBefore_eq _ _ sound.counted]

theorem sound_downsample {r : Recording} (sound : Sound r) {width : Int} (positive : 0 < width) :
    Sound { r with history := r.history.downsample r.now width } := by
  obtain ⟨counted, front, points, ordered, early, -⟩ :=
    downsample_spec r.now positive sound.ordered sound.counted
  have recent : ∀ p ∈ r.history.points.filter (fun p => r.now - hour ≤ p.time),
      p ∈ r.history.points ∧ r.now - hour ≤ p.time := fun p member => by
    simpa using List.mem_filter.mp member
  refine ⟨?_, fun p member => ?_, counted⟩
  · rw [points]
    refine List.pairwise_append.mpr
      ⟨ordered, sound.ordered.sublist List.filter_sublist, fun p old q new => ?_⟩
    exact (early p old).le.trans (recent q new).2
  · rw [points] at member
    rcases List.mem_append.mp member with old | new
    · have soon := early p old
      have positive : 0 < hour := by decide
      simp only
      omega
    · exact sound.past p (recent p new).1

theorem sound_step {r : Recording} (sound : Sound r) (maxHistorySamples : Int) (op : Op) :
    Sound (step maxHistorySamples r op) := by
  cases op with
  | tick d =>
    refine ⟨sound.ordered, fun p member => ?_, sound.counted⟩
    have past := sound.past p member
    simp only [step]
    omega
  | record snap => exact sound_record sound maxHistorySamples snap
  | evict => exact sound_evict sound
  | downsample width positive => exact sound_downsample sound positive

theorem sound_run (maxHistorySamples retention now : Int) (ops : List Op) :
    Sound (run maxHistorySamples retention now ops) := by
  induction ops using List.reverseRecOn with
  | nil => exact ⟨List.Pairwise.nil, fun _ member => (nomatch member), rfl⟩
  | append_singleton ops op ih =>
    rw [run, List.foldl_append]
    exact sound_step ih maxHistorySamples op

/-- Whatever was done before, the history is in order and counted, and each operation does what it is
for. -/
theorem history_kept (maxHistorySamples retention now : Int) (ops : List Op) :
    let r := run maxHistorySamples retention now ops
    let h := r.history
    h.points.Pairwise (fun p q => p.time ≤ q.time) ∧ h.samples = sizes h.points ∧
    (∀ snap, sizes (h.record maxHistorySamples r.now snap).points ≤ maxHistorySamples ∨
      (h.record maxHistorySamples r.now snap).points.length = 1) ∧
    (h.evict r.now).points = h.points.filter (fun p => r.now - h.retention ≤ p.time) ∧
    ∀ width, 0 < width →
      let old := fun p : HistoryPoint => decide (p.time < r.now - hour)
      (h.downsample r.now width).points.filter (fun p => !old p) = h.points.filter (fun p => !old p) ∧
      ∀ start name,
        (newest width start name ((h.downsample r.now width).points.filter old)).map gauges =
          (newest width start name (h.points.filter old)).map gauges := by
  intro r h
  have sound : Sound r := sound_run maxHistorySamples retention now ops
  refine ⟨sound.ordered, sound.counted, fun snap => ?_, evict_points sound, fun width positive => ?_⟩
  · obtain ⟨-, counted, bound⟩ :=
      record_spec maxHistorySamples r.now snap sound.counted
    rwa [counted] at bound
  · intro old
    obtain ⟨-, front, points, -, early, same⟩ :=
      downsample_spec r.now positive sound.ordered sound.counted
    have split : ∀ p : HistoryPoint, (!old p) = decide (r.now - hour ≤ p.time) := fun p => by
      simp only [old, ← decide_not, not_lt]
    have frontOld : front.filter old = front :=
      List.filter_eq_self.mpr fun p member => decide_eq_true (early p member)
    have frontNone : front.filter (fun p => !old p) = [] :=
      List.filter_eq_nil_iff.mpr fun p member => by
        rw [split, decide_eq_true_eq]
        exact not_le.mpr (early p member)
    have recentNone : (h.points.filter fun p => r.now - hour ≤ p.time).filter old = [] :=
      List.filter_eq_nil_iff.mpr fun p member => by
        simpa [old] using (List.mem_filter.mp member).2
    constructor
    · rw [points, List.filter_append, frontNone, List.nil_append, List.filter_filter]
      refine List.filter_congr fun p _ => ?_
      simp [split]
    · intro start name
      rw [points, List.filter_append, frontOld, recentNone, List.append_nil]
      exact same start name

end Dockgraph.Collector.StatsHistory
