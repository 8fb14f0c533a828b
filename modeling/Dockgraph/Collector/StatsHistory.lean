import Dockgraph.Collector.Stats
import Mathlib.Algebra.Ring.Int.Defs

/-!
# Stats history (`collector/stats_history.go`)

Times are nanoseconds since the zero time, durations nanoseconds. What the source reads from the
clock is an argument.
-/
namespace Dockgraph.Collector

def hour : Int := 3_600_000_000_000

/-- `Time.Truncate` for a positive duration. -/
def truncate (time width : Int) : Int := time - time % width

structure HistoryPoint where
  time : Int
  stats : Finmap fun _ : String => ContainerStats

/-- `len(p.Stats)` -/
def HistoryPoint.size (p : HistoryPoint) : Int := p.stats.keys.card

structure StatsHistory where
  points : List HistoryPoint := []
  samples : Int := 0
  retention : Int

/-- What `downsampleBucket` makes of a container's entry with one more point: rates add up, gauges
and counters are the last. -/
def ContainerStats.observe (existing s : ContainerStats) : ContainerStats :=
  { s with
    cpuPercent := existing.cpuPercent + s.cpuPercent
    cpuThrottled := existing.cpuThrottled + s.cpuThrottled }

structure Merging where
  merged : Finmap fun _ : String => ContainerStats := ∅
  counts : Finmap fun _ : String => ℚ := ∅

/-- The inner loop of `downsampleBucket`. -/
def Merging.add (m : Merging) (p : HistoryPoint) : Merging where
  merged := MapLoop.writeEach
    (fun _ existing s => (existing.getD .zero).observe s) p.stats m.merged
  counts := MapLoop.writeEach (fun _ n _ => n.getD 0 + 1) p.stats m.counts

def downsampleBucket (ts : Int) (points : List HistoryPoint) : HistoryPoint :=
  let m := points.foldl Merging.add {}
  { time := ts
    stats := MapLoop.writeEach
      (fun name _ s =>
        let n := (m.counts.lookup name).getD 0
        { s with cpuPercent := s.cpuPercent / n, cpuThrottled := s.cpuThrottled / n })
      m.merged m.merged }

namespace StatsHistory

/-- The points that stay while the loop of `Record` drops the first one, and their samples. -/
def dropExcess (maxHistorySamples : Int) : List HistoryPoint → Int → List HistoryPoint × Int
  | p :: q :: rest, samples =>
    if samples > maxHistorySamples then dropExcess maxHistorySamples (q :: rest) (samples - p.size)
    else (p :: q :: rest, samples)
  | points, samples => (points, samples)

def record (maxHistorySamples : Int) (h : StatsHistory) (ts : Int) (snap : StatsSnapshot) :
    StatsHistory :=
  let p : HistoryPoint := { time := ts, stats := snap.stats }
  let kept := dropExcess maxHistorySamples (h.points ++ [p]) (h.samples + p.size)
  { h with points := kept.1, samples := kept.2 }

/-- The points that stay while the loop of `Evict` drops the first one, and their samples. -/
def dropBefore (cutoff : Int) : List HistoryPoint → Int → List HistoryPoint × Int
  | [], samples => ([], samples)
  | p :: rest, samples =>
    if p.time < cutoff then dropBefore cutoff rest (samples - p.size) else (p :: rest, samples)

def evict (h : StatsHistory) (now : Int) : StatsHistory :=
  let kept := dropBefore (now - h.retention) h.points h.samples
  { h with points := kept.1, samples := kept.2 }

/-- The variables of the loop of `Downsample`. -/
structure Buckets where
  downsampled : List HistoryPoint := []
  bucketStart : Int
  bucket : List HistoryPoint := []

/-- The bucket goes to the result. -/
def Buckets.close (b : Buckets) : List HistoryPoint :=
  if b.bucket.length > 0 then b.downsampled ++ [downsampleBucket b.bucketStart b.bucket]
  else b.downsampled

def Buckets.add (bucketWidth : Int) (b : Buckets) (p : HistoryPoint) : Buckets :=
  if p.time < b.bucketStart + bucketWidth then { b with bucket := b.bucket ++ [p] }
  else
    { downsampled := b.close
      bucketStart := truncate p.time bucketWidth
      bucket := [p] }

def downsample (h : StatsHistory) (now bucketWidth : Int) : StatsHistory :=
  let oneHourAgo := now - hour
  let old := h.points.takeWhile (·.time < oneHourAgo)
  let recent := h.points.dropWhile (·.time < oneHourAgo)
  match old with
  | first :: _ :: _ =>
    let start : Buckets := { bucketStart := truncate first.time bucketWidth }
    let result := (old.foldl (Buckets.add bucketWidth) start).close ++ recent
    { h with points := result, samples := (result.map (·.size)).sum }
  -- fewer than two points are old
  | _ => h

end StatsHistory

end Dockgraph.Collector
