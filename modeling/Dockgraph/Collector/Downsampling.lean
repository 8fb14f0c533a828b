import Dockgraph.Collector.HistoryOrder
import Mathlib.Algebra.Order.Ring.Rat
import Mathlib.Tactic.FieldSimp
import Mathlib.Tactic.LinearCombination
import Mathlib.Tactic.Ring

/-!
# Downsampling again

A bucket that is only partly older than an hour is averaged, and averaged again when the rest of it is.
The point of the first run then counts as one sample, whatever it was made of.
-/
namespace Dockgraph.Collector.StatsHistory

/-! ## A bucket -/

/-- What the points say of a container, oldest first. -/
def seriesOf (name : String) (points : List HistoryPoint) : List ContainerStats :=
  points.filterMap fun p => p.stats.lookup name

def mean (f : ContainerStats → ℚ) (xs : List ContainerStats) : ℚ := (xs.map f).sum / xs.length

/-- The last sample with the means of the rates. -/
def averaged (xs : List ContainerStats) : Option ContainerStats :=
  xs.getLast?.map fun s =>
    { s with cpuPercent := mean (·.cpuPercent) xs, cpuThrottled := mean (·.cpuThrottled) xs }

theorem seriesOf_append (name : String) (xs ys : List HistoryPoint) :
    seriesOf name (xs ++ ys) = seriesOf name xs ++ seriesOf name ys :=
  List.filterMap_append

theorem seriesOf_single (name : String) (p : HistoryPoint) :
    seriesOf name [p] = (p.stats.lookup name).toList := by
  cases found : p.stats.lookup name <;> simp [seriesOf, found]

theorem lookup_counts (points : List HistoryPoint) (name : String) :
    ((points.foldl Merging.add {}).counts.lookup name).getD 0 = (seriesOf name points).length := by
  induction points using List.reverseRecOn with
  | nil => rfl
  | append_singleton points p ih =>
    rw [List.foldl_append, List.foldl_cons, List.foldl_nil, Merging.add, MapLoop.lookup_writeEach,
      seriesOf_append, seriesOf_single]
    cases p.stats.lookup name with
    | none => simpa using ih
    | some s => simp [ih]

theorem lookup_merged_sums (points : List HistoryPoint) (name : String) :
    (points.foldl Merging.add {}).merged.lookup name = (seriesOf name points).getLast?.map fun s =>
      { s with
        cpuPercent := ((seriesOf name points).map (·.cpuPercent)).sum
        cpuThrottled := ((seriesOf name points).map (·.cpuThrottled)).sum } := by
  induction points using List.reverseRecOn with
  | nil => rfl
  | append_singleton points p ih =>
    rw [List.foldl_append, List.foldl_cons, List.foldl_nil, Merging.add, MapLoop.lookup_writeEach, ih,
      seriesOf_append, seriesOf_single]
    cases p.stats.lookup name with
    | none => simp
    | some s =>
      rcases List.eq_nil_or_concat' (seriesOf name points) with none | ⟨front, t, some⟩
      · rw [none]
        simp [ContainerStats.observe, ContainerStats.zero]
      · rw [some]
        simp [ContainerStats.observe, add_assoc]

/-- A bucket's point has the mean of all samples in the bucket. -/
theorem lookup_downsampleBucket_averaged (ts : Int) (points : List HistoryPoint) (name : String) :
    (downsampleBucket ts points).stats.lookup name = averaged (seriesOf name points) := by
  rw [downsampleBucket, MapLoop.lookup_writeEach, lookup_merged_sums, lookup_counts, averaged]
  cases (seriesOf name points).getLast? <;> rfl

theorem HistoryPoint.ext {p q : HistoryPoint} (time : p.time = q.time)
    (stats : ∀ name, p.stats.lookup name = q.stats.lookup name) : p = q := by
  cases p
  cases q
  cases time
  cases Finmap.ext_lookup stats
  rfl

theorem averaged_single (s : ContainerStats) : averaged [s] = some s := by
  simp [averaged, mean]

/-- A bucket of one point that starts with the bucket is that point. -/
theorem downsampleBucket_single (p : HistoryPoint) : downsampleBucket p.time [p] = p := by
  refine HistoryPoint.ext rfl fun name => ?_
  rw [lookup_downsampleBucket_averaged, seriesOf_single]
  cases p.stats.lookup name with
  | none => rfl
  | some s => exact averaged_single s

/-! ## Means of means -/

/-- The rest of the samples does not move the mean, or there is nothing to weigh. -/
def Balanced (early late : List ContainerStats) : Prop :=
  early.length ≤ 1 ∨ late = [] ∨
    mean (·.cpuPercent) early = mean (·.cpuPercent) late ∧
      mean (·.cpuThrottled) early = mean (·.cpuThrottled) late

theorem mean_cons_iff (f : ContainerStats → ℚ) {early late : List ContainerStats} (some : early ≠ [])
    (more : late ≠ []) {s : ContainerStats} (front : f s = mean f early) :
    mean f (early ++ late) = mean f (s :: late) ↔ early.length = 1 ∨ mean f early = mean f late := by
  have n : (early.length : ℚ) ≠ 0 := Nat.cast_ne_zero.mpr (List.length_pos_iff.mpr some).ne'
  have m : (late.length : ℚ) ≠ 0 := Nat.cast_ne_zero.mpr (List.length_pos_iff.mpr more).ne'
  have sum : (early.map f).sum = early.length * mean f early := (mul_div_cancel₀ _ n).symm
  have sum' : (late.map f).sum = late.length * mean f late := (mul_div_cancel₀ _ m).symm
  have both : ((early ++ late).length : ℚ) ≠ 0 :=
    Nat.cast_ne_zero.mpr (List.length_pos_iff.mpr (List.append_ne_nil_of_left_ne_nil some late)).ne'
  have next : ((s :: late).length : ℚ) ≠ 0 := Nat.cast_ne_zero.mpr (Nat.succ_ne_zero _)
  rw [mean, mean, div_eq_div_iff both next, List.map_append, List.sum_append, List.map_cons, List.sum_cons,
    sum, sum', front, List.length_append, List.length_cons]
  push_cast
  have one : early.length = 1 ↔ (early.length : ℚ) - 1 = 0 := by
    rw [sub_eq_zero]
    exact_mod_cast Iff.rfl
  rw [one, ← sub_eq_zero (b := mean f late), ← mul_eq_zero, ← mul_eq_zero_iff_left m, ← sub_eq_zero]
  refine Eq.congr ?_ rfl
  ring

theorem averaged_concat (front : List ContainerStats) (t : ContainerStats) :
    averaged (front ++ [t]) = some
      { t with
        cpuPercent := mean (·.cpuPercent) (front ++ [t])
        cpuThrottled := mean (·.cpuThrottled) (front ++ [t]) } := by
  rw [averaged, List.getLast?_concat, Option.map_some]

/-- Averaging the early samples first. -/
theorem averaged_twice_iff (early late : List ContainerStats) :
    averaged (early ++ late) = averaged ((averaged early).toList ++ late) ↔ Balanced early late := by
  rcases List.eq_nil_or_concat' early with rfl | ⟨front, t, part⟩
  · simp [Balanced, averaged]
  obtain ⟨s, avg, cpu, throttled⟩ : ∃ s, averaged early = some s ∧
      s.cpuPercent = mean (·.cpuPercent) early ∧ s.cpuThrottled = mean (·.cpuThrottled) early := by
    rw [part]
    exact ⟨_, averaged_concat front t, rfl, rfl⟩
  have some : early ≠ [] := by simp [part]
  rw [avg, Option.toList_some, List.singleton_append]
  rcases List.eq_nil_or_concat' late with rfl | ⟨front', u, part'⟩
  · rw [List.append_nil, avg, averaged_single]
    exact iff_of_true rfl (.inr (.inl rfl))
  have more : late ≠ [] := by simp [part']
  have whole : averaged (early ++ late) = Option.some
      { u with
        cpuPercent := mean (·.cpuPercent) (early ++ late)
        cpuThrottled := mean (·.cpuThrottled) (early ++ late) } := by
    rw [part', ← List.append_assoc]
    exact averaged_concat _ u
  have again : averaged (s :: late) = Option.some
      { u with
        cpuPercent := mean (·.cpuPercent) (s :: late)
        cpuThrottled := mean (·.cpuThrottled) (s :: late) } := by
    rw [part', ← List.cons_append]
    exact averaged_concat _ u
  rw [whole, again, Option.some.injEq, ContainerStats.mk.injEq, mean_cons_iff _ some more cpu,
    mean_cons_iff _ some more throttled]
  have length : early.length ≤ 1 ↔ early.length = 1 := by
    have := List.length_pos_iff.mpr some
    omega
  simp only [Balanced, length, more, and_true, false_or]
  exact or_and_left.symm

/-- Merging early points first. -/
theorem downsampleBucket_cons_iff (ts : Int) (early late : List HistoryPoint) :
    downsampleBucket ts (early ++ late) = downsampleBucket ts (downsampleBucket ts early :: late) ↔
      ∀ name, Balanced (seriesOf name early) (seriesOf name late) := by
  have lookup (name : String) :
      (downsampleBucket ts (early ++ late)).stats.lookup name =
          (downsampleBucket ts (downsampleBucket ts early :: late)).stats.lookup name ↔
        Balanced (seriesOf name early) (seriesOf name late) := by
    rw [lookup_downsampleBucket_averaged, lookup_downsampleBucket_averaged, seriesOf_append,
      ← List.singleton_append, seriesOf_append, seriesOf_single, lookup_downsampleBucket_averaged]
    exact averaged_twice_iff _ _
  refine ⟨fun same name => (lookup name).mp (by rw [same]), fun balanced => ?_⟩
  exact HistoryPoint.ext rfl fun name => (lookup name).mpr (balanced name)

/-! ## The loop -/

/-- What the loop makes of points that start a bucket. -/
def closing (width : Int) : List HistoryPoint → List HistoryPoint
  | [] => []
  | p :: rest => ((p :: rest).foldl (Buckets.add width) { bucketStart := truncate p.time width }).close

theorem Buckets.close_of_ne_nil {b : Buckets} (some : b.bucket ≠ []) :
    b.close = b.downsampled ++ [downsampleBucket b.bucketStart b.bucket] :=
  if_pos (List.length_pos_iff.mpr some)

section Width

variable {width : Int} (positive : 0 < width)
include positive

theorem add_start (p : HistoryPoint) :
    Buckets.add width { bucketStart := truncate p.time width } p =
      { bucketStart := truncate p.time width, bucket := [p] } :=
  if_pos (lt_truncate_add positive p.time)

/-- The open bucket takes the points before its end, the others are on their own. -/
theorem close_foldl {b : Buckets} (some : b.bucket ≠ []) (more : List HistoryPoint) :
    (more.foldl (Buckets.add width) b).close = b.downsampled ++
      downsampleBucket b.bucketStart (b.bucket ++ more.takeWhile (·.time < b.bucketStart + width)) ::
        closing width (more.dropWhile (·.time < b.bucketStart + width)) := by
  induction more generalizing b with
  | nil =>
    rw [List.foldl_nil, Buckets.close_of_ne_nil some]
    simp [closing]
  | cons p more ih =>
    rw [List.foldl_cons]
    by_cases inside : p.time < b.bucketStart + width
    · rw [Buckets.add, if_pos inside, ih (by simp), List.takeWhile_cons_of_pos (by simpa using inside),
        List.dropWhile_cons_of_pos (by simpa using inside), List.append_assoc, List.singleton_append]
    · have alone := ih (b := { bucketStart := truncate p.time width, bucket := [p] }) (List.cons_ne_nil _ _)
      -- the open bucket is closed, and `p` starts the next
      rw [Buckets.add, if_neg inside, ih (List.cons_ne_nil _ _),
        List.takeWhile_cons_of_neg (by simpa using inside),
        List.dropWhile_cons_of_neg (by simpa using inside), List.append_nil, closing, List.foldl_cons,
        add_start positive, alone, Buckets.close_of_ne_nil some, List.append_assoc]
      rfl

/-- The loop over the points it has made leaves them as they are. -/
structure Refolds (width first : Int) (b : Buckets) : Prop where
  head : ∀ d : HistoryPoint, d.time = b.bucketStart →
    ∃ x xs, b.downsampled ++ [d] = x :: xs ∧ truncate x.time width = first
  fold : ∀ d : HistoryPoint, d.time = b.bucketStart →
    (b.downsampled ++ [d]).foldl (Buckets.add width) { bucketStart := first } = { b with bucket := [d] }

theorem Refolds.add {b : Buckets} {seen : List HistoryPoint} {first : Int} (filled : Filled width b seen)
    (refolds : Refolds width first b) (p : HistoryPoint) : Refolds width first (b.add width p) := by
  rw [Buckets.add]
  split
  · exact ⟨refolds.head, refolds.fold⟩
  next past =>
    rw [filled.close_eq]
    refine ⟨fun d _ => ?_, fun d aligned => ?_⟩
    · obtain ⟨x, xs, split, start⟩ := refolds.head (downsampleBucket b.bucketStart b.bucket) rfl
      exact ⟨x, xs ++ [d], by rw [split, List.cons_append], start⟩
    · obtain ⟨q, -, -, start, -⟩ := filled.exists_start positive
      -- the next bucket starts where this one ends, or later
      have late : ¬d.time < b.bucketStart + width := by
        have multiple : truncate (b.bucketStart + width) width = b.bucketStart + width := by
          have next : b.bucketStart + width = width * (q.time / width + 1) := by
            rw [start, truncate_eq, Int.mul_add, Int.mul_one]
          rw [next, truncate_eq, Int.mul_ediv_cancel_left _ positive.ne']
        have := truncate_mono positive (not_lt.mp past)
        rw [multiple] at this
        rw [aligned]
        exact not_lt.mpr this
      have again : downsampleBucket b.bucketStart [downsampleBucket b.bucketStart b.bucket] =
          downsampleBucket b.bucketStart b.bucket :=
        downsampleBucket_single (downsampleBucket b.bucketStart b.bucket)
      rw [List.foldl_append, refolds.fold _ rfl, List.foldl_cons, List.foldl_nil, Buckets.add, if_neg late,
        aligned, truncate_truncate positive, Buckets.close_of_ne_nil (List.cons_ne_nil _ _), again]

theorem refolds_foldl {first : HistoryPoint} {rest : List HistoryPoint}
    (ordered : (first :: rest).Pairwise fun p q => p.time ≤ q.time) :
    Refolds width (truncate first.time width) ((first :: rest).foldl (Buckets.add width)
      { bucketStart := truncate first.time width }) := by
  induction rest using List.reverseRecOn with
  | nil =>
    rw [List.foldl_cons, List.foldl_nil, add_start positive]
    refine ⟨fun d aligned => ⟨d, [], rfl, ?_⟩, fun d aligned => ?_⟩
    · rw [aligned, truncate_truncate positive]
    · have start : truncate first.time width = truncate d.time width := by
        rw [aligned, truncate_truncate positive]
      rw [List.nil_append, List.foldl_cons, List.foldl_nil, start, add_start positive]
  | append_singleton rest p ih =>
    rw [← List.cons_append] at ordered ⊢
    have earlier := (List.pairwise_append.mp ordered).1
    rw [List.foldl_append]
    exact (ih earlier).add positive (filled_foldl positive earlier) p

/-- The points of the bucket under way are those with its start, which is the latest. -/
structure Current (width : Int) (b : Buckets) (seen : List HistoryPoint) : Prop where
  low : ∀ p ∈ seen, truncate p.time width ≤ b.bucketStart
  bucket : b.bucket = seen.filter fun p => truncate p.time width = b.bucketStart

theorem Current.add {b : Buckets} {seen : List HistoryPoint} (current : Current width b seen) {p q : HistoryPoint}
    (start : b.bucketStart = truncate q.time width) (later : q.time ≤ p.time) :
    Current width (b.add width p) (seen ++ [p]) := by
  obtain ⟨low, bucket⟩ := current
  rw [Buckets.add]
  split
  next inside =>
    have same : truncate p.time width = b.bucketStart := by
      rw [start]
      exact truncate_of_lt positive later (start ▸ inside)
    refine ⟨fun r listed => ?_, ?_⟩
    · rcases List.mem_append.mp listed with old | new
      · exact low r old
      · rw [List.mem_singleton.mp new, same]
    · rw [List.filter_append, ← bucket, List.filter_cons_of_pos (by simpa using same), List.filter_nil]
  next past =>
    -- the point starts a bucket of its own, behind all that have been seen
    have higher : b.bucketStart < truncate p.time width := by
      by_contra back
      have := lt_truncate_add positive p.time
      omega
    refine ⟨fun r listed => ?_, ?_⟩
    · rcases List.mem_append.mp listed with old | new
      · exact (low r old).trans higher.le
      · rw [List.mem_singleton.mp new]
    · have none : seen.filter (fun r => truncate r.time width = truncate p.time width) = [] :=
        List.filter_eq_nil_iff.mpr fun r listed => by
          have := low r listed
          rw [decide_eq_true_eq]
          omega
      rw [List.filter_append, none, List.filter_cons_of_pos (by simp), List.filter_nil, List.nil_append]

theorem current_foldl {first : HistoryPoint} {rest : List HistoryPoint}
    (ordered : (first :: rest).Pairwise fun p q => p.time ≤ q.time) :
    Current width ((first :: rest).foldl (Buckets.add width) { bucketStart := truncate first.time width })
      (first :: rest) := by
  induction rest using List.reverseRecOn with
  | nil =>
    rw [List.foldl_cons, List.foldl_nil, add_start positive]
    exact ⟨by simp, by simp⟩
  | append_singleton rest p ih =>
    rw [← List.cons_append] at ordered ⊢
    obtain ⟨earlier, -, late⟩ := List.pairwise_append.mp ordered
    obtain ⟨q, member, -, start, -⟩ := (filled_foldl positive earlier).exists_start positive
    rw [List.foldl_append]
    exact (ih earlier).add positive start (late q member p (List.mem_singleton_self p))

/-- The bucket under way when the points before `more` have been seen. -/
theorem takeWhile_bucket {first : HistoryPoint} {rest more : List HistoryPoint}
    (ordered : (first :: rest ++ more).Pairwise fun p q => p.time ≤ q.time) :
    let b := (first :: rest).foldl (Buckets.add width) { bucketStart := truncate first.time width }
    (∀ p ∈ more, b.bucketStart ≤ truncate p.time width) ∧
      more.takeWhile (·.time < b.bucketStart + width) =
        more.filter fun p => truncate p.time width = b.bucketStart := by
  intro b
  obtain ⟨earlier, sorted, late⟩ := List.pairwise_append.mp ordered
  obtain ⟨q, member, -, start, -⟩ := (filled_foldl positive earlier).exists_start positive
  have above : ∀ p ∈ more, b.bucketStart ≤ truncate p.time width := fun p listed => by
    rw [show b.bucketStart = truncate q.time width from start]
    exact truncate_mono positive (late q member p listed)
  refine ⟨above, ?_⟩
  rw [Suffix.takeWhile_lt_of_le sorted]
  refine List.filter_congr fun p listed => decide_eq_decide.mpr ⟨fun inside => ?_, fun same => ?_⟩
  · rw [show b.bucketStart = truncate q.time width from start] at inside ⊢
    exact truncate_of_lt positive (late q member p listed) inside
  · rw [← same]
    exact lt_truncate_add positive p.time

end Width

/-! ## Two runs -/

/-- The points of one bucket. -/
def within (width start : Int) (points : List HistoryPoint) : List HistoryPoint :=
  points.filter fun p => truncate p.time width = start

/-- Only the bucket that the seen points end in and the others start in can be unbalanced. -/
theorem balanced_iff_current {width : Int} {b : Buckets} {seen more : List HistoryPoint}
    (below : ∀ p ∈ seen, truncate p.time width ≤ b.bucketStart)
    (above : ∀ p ∈ more, b.bucketStart ≤ truncate p.time width) :
    (∀ start name, Balanced (seriesOf name (within width start seen)) (seriesOf name (within width start more))) ↔
      ∀ name, Balanced (seriesOf name (within width b.bucketStart seen))
        (seriesOf name (within width b.bucketStart more)) := by
  refine ⟨fun balanced => balanced b.bucketStart, fun balanced start name => ?_⟩
  rcases lt_trichotomy start b.bucketStart with low | rfl | high
  · have none : within width start more = [] :=
      List.filter_eq_nil_iff.mpr fun p listed => by
        have := above p listed
        rw [decide_eq_true_eq]
        omega
    rw [none]
    exact .inr (.inl rfl)
  · exact balanced name
  · have none : within width start seen = [] :=
      List.filter_eq_nil_iff.mpr fun p listed => by
        have := below p listed
        rw [decide_eq_true_eq]
        omega
    rw [none]
    exact .inl (Nat.zero_le _)

section Width

variable {width : Int} (positive : 0 < width)
include positive

/-- The points of the first run and those that have aged since, against all of them at once. -/
theorem closing_closing_iff {first : HistoryPoint} {rest more : List HistoryPoint}
    (ordered : (first :: rest ++ more).Pairwise fun p q => p.time ≤ q.time) :
    closing width (closing width (first :: rest) ++ more) = closing width (first :: rest ++ more) ↔
      ∀ start name, Balanced (seriesOf name (within width start (first :: rest)))
        (seriesOf name (within width start more)) := by
  have earlier := (List.pairwise_append.mp ordered).1
  have filled := filled_foldl positive earlier
  have refolds := refolds_foldl positive earlier
  obtain ⟨below, bucket⟩ := current_foldl positive earlier
  obtain ⟨above, taken⟩ := takeWhile_bucket positive ordered
  have whole : closing width (first :: rest ++ more) = (more.foldl (Buckets.add width)
      ((first :: rest).foldl (Buckets.add width) { bucketStart := truncate first.time width })).close := by
    rw [List.cons_append, closing, ← List.cons_append, List.foldl_append]
  have once : closing width (first :: rest) = ((first :: rest).foldl (Buckets.add width)
      { bucketStart := truncate first.time width }).close := rfl
  rw [whole, once, filled.close_eq]
  generalize (first :: rest).foldl (Buckets.add width) { bucketStart := truncate first.time width } = b at *
  have again : closing width (b.downsampled ++ [downsampleBucket b.bucketStart b.bucket] ++ more) =
      (more.foldl (Buckets.add width)
        { b with bucket := [downsampleBucket b.bucketStart b.bucket] }).close := by
    obtain ⟨x, xs, split, start⟩ := refolds.head (downsampleBucket b.bucketStart b.bucket) rfl
    rw [← refolds.fold _ rfl, split, List.cons_append, closing, ← List.cons_append, List.foldl_append, start]
  rw [again, close_foldl positive (List.cons_ne_nil _ _), close_foldl positive filled.some,
    List.append_right_inj, List.cons_eq_cons, and_iff_left rfl, taken, List.singleton_append, eq_comm,
    downsampleBucket_cons_iff, balanced_iff_current below above, bucket]
  rfl

theorem closing_before {first : HistoryPoint} {rest : List HistoryPoint}
    (ordered : (first :: rest).Pairwise fun p q => p.time ≤ q.time) {cutoff : Int}
    (before : ∀ p ∈ first :: rest, p.time < cutoff) : ∀ p ∈ closing width (first :: rest), p.time < cutoff := by
  intro p member
  have filled := filled_foldl positive ordered
  obtain ⟨q, listed, -, -, start⟩ := filled.exists_start positive
  exact (filled.close_ordered.2 p member).trans_lt (start.trans_lt (before q listed))

theorem closing_ne_nil {first : HistoryPoint} {rest : List HistoryPoint}
    (ordered : (first :: rest).Pairwise fun p q => p.time ≤ q.time) : closing width (first :: rest) ≠ [] := by
  rw [closing, (filled_foldl positive ordered).close_eq]
  exact List.append_ne_nil_of_right_ne_nil _ (List.cons_ne_nil _ _)

end Width

theorem takeWhile_eq_nil {points : List HistoryPoint} {cutoff : Int} (after : ∀ p ∈ points, cutoff ≤ p.time) :
    points.takeWhile (·.time < cutoff) = [] := by
  cases points with
  | nil => rfl
  | cons p points =>
    have := after p (List.mem_cons_self ..)
    rw [List.takeWhile_cons_of_neg]
    rw [decide_eq_true_eq]
    exact not_lt.mpr this

theorem downsample_of_short {h : StatsHistory} {old recent : List HistoryPoint} {now : Int} (width : Int)
    (split : h.points = old ++ recent) (short : old.length ≤ 1) (after : ∀ p ∈ recent, now - hour ≤ p.time) :
    h.downsample now width = h := by
  have few : (h.points.takeWhile (·.time < now - hour)).length ≤ 1 := by
    rw [split, List.takeWhile_append, takeWhile_eq_nil after, List.append_nil]
    have := (List.takeWhile_sublist (l := old) fun p => p.time < now - hour).length_le
    split_ifs <;> omega
  rw [downsample]
  split
  next taken => simp [taken] at few
  · rfl

/-- What is old is merged, unless it is one point; then merging it would leave it as it is. -/
theorem downsample_eq {h : StatsHistory} {now : Int} (width : Int) {first : HistoryPoint} {old recent : List HistoryPoint}
    (split : h.points = first :: old ++ recent) (before : ∀ p ∈ first :: old, p.time < now - hour)
    (after : ∀ p ∈ recent, now - hour ≤ p.time)
    (aligned : old = [] → closing width [first] = [first] ∧ h.samples = sizes h.points) :
    h.downsample now width =
      { h with
        points := closing width (first :: old) ++ recent
        samples := sizes (closing width (first :: old) ++ recent) } := by
  cases old with
  | nil =>
    obtain ⟨same, counted⟩ := aligned rfl
    rw [downsample_of_short width split le_rfl after, same, ← split, ← counted]
  | cons second old =>
    have taken : h.points.takeWhile (·.time < now - hour) = first :: second :: old := by
      rw [split, List.takeWhile_append_of_pos fun p member => decide_eq_true (before p member),
        takeWhile_eq_nil after, List.append_nil]
    have rest : h.points.dropWhile (·.time < now - hour) = recent := by
      rw [← List.append_cancel_left_eq (first :: second :: old), ← split, ← taken,
        List.takeWhile_append_dropWhile]
    rw [downsample, taken, rest]
    rfl

/-- A run over what another one has merged. -/
theorem downsample_merged {h : StatsHistory} {width : Int} (positive : 0 < width) {now : Int} {first : HistoryPoint}
    {old more recent : List HistoryPoint}
    (ordered : (first :: old).Pairwise fun p q => p.time ≤ q.time)
    (split : h.points = closing width (first :: old) ++ (more ++ recent))
    (before : ∀ p ∈ closing width (first :: old) ++ more, p.time < now - hour)
    (after : ∀ p ∈ recent, now - hour ≤ p.time) (counted : h.samples = sizes h.points) :
    h.downsample now width =
      { h with
        points := closing width (closing width (first :: old) ++ more) ++ recent
        samples := sizes (closing width (closing width (first :: old) ++ more) ++ recent) } := by
  have alone : (first :: old ++ []).Pairwise fun p q : HistoryPoint => p.time ≤ q.time := by
    rwa [List.append_nil]
  have idle := (closing_closing_iff positive alone).mpr fun _ _ => .inr (.inl rfl)
  obtain ⟨e, es, made⟩ := List.exists_cons_of_ne_nil (closing_ne_nil positive ordered)
  rw [List.append_nil, List.append_nil, made] at idle
  rw [made, ← List.append_assoc] at split
  rw [made] at before ⊢
  refine downsample_eq width split before after fun alone => ⟨?_, counted⟩
  obtain ⟨rfl, -⟩ := List.append_eq_nil_iff.mp alone
  exact idle

theorem exists_split {points : List HistoryPoint} (ordered : points.Pairwise fun p q => p.time ≤ q.time)
    (c₁ c₂ : Int) :
    ∃ recent, points = points.filter (fun p => p.time < c₁) ++
        (points.filter (fun p => c₁ ≤ p.time ∧ p.time < c₂) ++ recent) ∧
      ∀ p ∈ recent, c₂ ≤ p.time := by
  have rest := Suffix.dropWhile_lt_of_le ordered c₁
  have sorted := ordered.sublist (List.dropWhile_sublist fun p => decide (p.time < c₁))
  have aged := Suffix.takeWhile_lt_of_le sorted c₂
  have fresh := Suffix.dropWhile_lt_of_le sorted c₂
  refine ⟨(points.dropWhile (·.time < c₁)).dropWhile (·.time < c₂), ?_, fun p member => ?_⟩
  · have middle : points.filter (fun p => c₁ ≤ p.time ∧ p.time < c₂) =
        (points.dropWhile (·.time < c₁)).takeWhile (·.time < c₂) := by
      rw [aged, rest, List.filter_filter]
      exact List.filter_congr fun p _ => by rw [Bool.decide_and, Bool.and_comm]
    rw [middle, List.takeWhile_append_dropWhile, ← Suffix.takeWhile_lt_of_le ordered,
      List.takeWhile_append_dropWhile]
  · rw [fresh] at member
    exact of_decide_eq_true (List.mem_filter.mp member).2

/-- Two runs do what the later one does, except for a bucket of which several samples of a container
aged before the first run, others after it, and their means are different. -/
theorem downsample_downsample_iff {h : StatsHistory} {width t₁ t₂ : Int} (positive : 0 < width)
    (ordered : h.points.Pairwise fun p q => p.time ≤ q.time) (later : t₁ ≤ t₂) :
    (h.downsample t₁ width).downsample t₂ width = h.downsample t₂ width ↔
      ∀ start name, Balanced
        (seriesOf name (within width start (h.points.filter fun p => p.time < t₁ - hour)))
        (seriesOf name
          (within width start (h.points.filter fun p => t₁ - hour ≤ p.time ∧ p.time < t₂ - hour))) := by
  obtain ⟨recent, split, fresh⟩ := exists_split ordered (t₁ - hour) (t₂ - hour)
  have early : ∀ p ∈ h.points.filter (fun p => p.time < t₁ - hour), p.time < t₁ - hour :=
    fun p member => of_decide_eq_true (List.mem_filter.mp member).2
  have aged : ∀ p ∈ h.points.filter (fun p => t₁ - hour ≤ p.time ∧ p.time < t₂ - hour),
      t₁ - hour ≤ p.time ∧ p.time < t₂ - hour :=
    fun p member => of_decide_eq_true (List.mem_filter.mp member).2
  generalize h.points.filter (fun p => p.time < t₁ - hour) = old at *
  generalize h.points.filter (fun p => t₁ - hour ≤ p.time ∧ p.time < t₂ - hour) = more at *
  have after : ∀ p ∈ more ++ recent, t₁ - hour ≤ p.time := fun p member => by
    rcases List.mem_append.mp member with soon | new
    · exact (aged p soon).1
    · have := fresh p new
      omega
  by_cases short : old.length ≤ 1
  · rw [downsample_of_short width split short after]
    -- the first run leaves the one point as it is
    refine iff_of_true rfl fun start name => .inl ?_
    have series : (seriesOf name (within width start old)).length ≤ (within width start old).length :=
      List.length_filterMap_le _ _
    exact (series.trans (List.length_filter_le _ _)).trans short
  obtain ⟨first, second, old, rfl⟩ : ∃ first second rest, old = first :: second :: rest := by
    rcases old with _ | ⟨first, _ | ⟨second, old⟩⟩
    · simp at short
    · simp at short
    · exact ⟨first, second, old, rfl⟩
  rw [split, ← List.append_assoc] at ordered
  have joined := (List.pairwise_append.mp ordered).1
  have earlier := (List.pairwise_append.mp joined).1
  have both : ∀ p ∈ first :: second :: (old ++ more), p.time < t₂ - hour := fun p member => by
    rcases List.mem_append.mp (show p ∈ (first :: second :: old) ++ more from member) with first | soon
    · have := early p first
      omega
    · exact (aged p soon).2
  have once := downsample_eq width split early after (absurd · (List.cons_ne_nil _ _))
  rw [← List.append_assoc] at split
  have direct := downsample_eq width split both fresh (absurd · (List.cons_ne_nil _ _))
  have soon : ∀ p ∈ closing width (first :: second :: old) ++ more, p.time < t₂ - hour := fun p member => by
    rcases List.mem_append.mp member with merged | soon
    · have := closing_before positive earlier early p merged
      omega
    · exact (aged p soon).2
  -- both ways only the merged points can differ
  rw [once, direct, downsample_merged positive earlier rfl soon fresh rfl]
  refine Iff.trans ⟨fun same => ?_, fun same => ?_⟩ (closing_closing_iff positive joined)
  · exact (List.append_left_inj recent).mp (congrArg StatsHistory.points same)
  · rw [same]
    rfl

/-- A point of one container at a second. -/
def sample (seconds : Int) (cpuPercent : ℚ) : HistoryPoint where
  time := seconds * 1_000_000_000
  stats := Finmap.singleton "web" { ContainerStats.zero with cpuPercent }

def aging : StatsHistory where
  points := [sample 0 0, sample 1 3, sample 2 6]
  samples := 3
  retention := hour

theorem downsample_downsample_iff_aging :
    (aging.downsample (hour + 2_000_000_000) 60_000_000_000).downsample (hour + 60_000_000_000) 60_000_000_000 =
        aging.downsample (hour + 60_000_000_000) 60_000_000_000 ↔
      ∀ start name, Balanced
        (seriesOf name (within 60_000_000_000 start
          (aging.points.filter fun p => p.time < hour + 2_000_000_000 - hour)))
        (seriesOf name (within 60_000_000_000 start (aging.points.filter fun p =>
          hour + 2_000_000_000 - hour ≤ p.time ∧ p.time < hour + 60_000_000_000 - hour))) :=
  downsample_downsample_iff (by decide) (by decide) (by decide)

/-- The samples 0, 3 and 6 become 3 in one run and 15/4 in two. -/
theorem mean_of_means :
    let cpus (h : StatsHistory) := h.points.map fun p => (p.stats.lookup "web").map (·.cpuPercent)
    cpus (aging.downsample (hour + 60_000_000_000) 60_000_000_000) = [some 3] ∧
    cpus ((aging.downsample (hour + 2_000_000_000) 60_000_000_000).downsample
      (hour + 60_000_000_000) 60_000_000_000) = [some (15 / 4)] := by
  decide +kernel

end Dockgraph.Collector.StatsHistory
