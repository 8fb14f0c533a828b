import Dockgraph.Collector.Types
import Mathlib.Algebra.Order.Field.Rat

/-!
# Figures of a container (`collector/stats_calc.go`)

The counters are the daemon's 64-bit words. A conversion to `float64` and a division are exact here.
-/
namespace Dockgraph.Collector

structure CPUUsage where
  totalUsage : UInt64
  percpuUsage : List UInt64 := []

structure ThrottlingData where
  periods : UInt64 := 0
  throttledPeriods : UInt64 := 0

structure CPUStats where
  cpuUsage : CPUUsage
  systemUsage : UInt64
  onlineCPUs : UInt32 := 0
  throttlingData : ThrottlingData := {}

structure MemoryStats where
  usage : UInt64 := 0
  limit : UInt64 := 0
  stats : Finmap fun _ : String => UInt64 := ∅

structure NetworkStats where
  rxBytes : UInt64
  txBytes : UInt64
  rxErrors : UInt64
  txErrors : UInt64

structure BlkioStatEntry where
  op : String
  value : UInt64

/-- `networks` is in the order a range over the map gives. -/
structure StatsResponse where
  cpuStats : CPUStats
  preCPUStats : CPUStats
  memoryStats : MemoryStats := {}
  networks : List NetworkStats := []
  ioServiceBytesRecursive : List BlkioStatEntry := []
  pids : UInt64 := 0

def float (n : UInt64) : ℚ := n.toNat

/-- The CPUs a usage is counted in. -/
def CPUStats.cpus (s : CPUStats) : ℚ :=
  let onlineCPUs : ℚ := s.onlineCPUs.toNat
  let onlineCPUs := if onlineCPUs = 0 then (s.cpuUsage.percpuUsage.length : ℚ) else onlineCPUs
  if onlineCPUs = 0 then 1 else onlineCPUs

def calcCPUPercent (stats : StatsResponse) : ℚ :=
  let cpuDelta := float (stats.cpuStats.cpuUsage.totalUsage - stats.preCPUStats.cpuUsage.totalUsage)
  let systemDelta := float (stats.cpuStats.systemUsage - stats.preCPUStats.systemUsage)
  if systemDelta ≤ 0 ∨ cpuDelta < 0 then 0
  else cpuDelta / systemDelta * stats.cpuStats.cpus * 100

def calcCPUThrottle (stats : StatsResponse) : ℚ :=
  let total := stats.cpuStats.throttlingData.periods
  if total = 0 then 0 else float stats.cpuStats.throttlingData.throttledPeriods / float total * 100

def calcMemUsage (mem : MemoryStats) : UInt64 :=
  if mem.usage = 0 then 0
  else
    match mem.stats.lookup "inactive_file" with
    -- cgroup v1 counts the page cache as usage
    | some inactiveFile => if inactiveFile < mem.usage then mem.usage - inactiveFile else mem.usage
    | none => mem.usage

/-- Sums of received and sent bytes and errors. -/
def sumNetworkIO (networks : List NetworkStats) : UInt64 × UInt64 × UInt64 × UInt64 :=
  networks.foldl
    (fun (rx, tx, rxErr, txErr) n => (rx + n.rxBytes, tx + n.txBytes, rxErr + n.rxErrors, txErr + n.txErrors))
    (0, 0, 0, 0)

def sumBlockIO (entries : List BlkioStatEntry) : UInt64 × UInt64 :=
  entries.foldl
    (fun (read, write) entry =>
      if entry.op = "read" ∨ entry.op = "Read" then (read + entry.value, write)
      else if entry.op = "write" ∨ entry.op = "Write" then (read, write + entry.value)
      else (read, write))
    (0, 0)

/-- What `fetchOneStats` makes of a response. -/
def fetchedStats (raw : StatsResponse) : ContainerStats :=
  let (rx, tx, rxErr, txErr) := sumNetworkIO raw.networks
  let (blockRead, blockWrite) := sumBlockIO raw.ioServiceBytesRecursive
  { cpuPercent := calcCPUPercent raw
    cpuThrottled := calcCPUThrottle raw
    memUsage := (calcMemUsage raw.memoryStats).toNat
    memLimit := raw.memoryStats.limit.toNat
    netRx := rx.toNat
    netTx := tx.toNat
    netRxErrors := rxErr.toNat
    netTxErrors := txErr.toNat
    blockRead := blockRead.toNat
    blockWrite := blockWrite.toNat
    pids := raw.pids.toNat }

/-! ## Counters that start again -/

/-- The figure is zero after a reset, and otherwise the share of the CPUs' time. -/
structure SurvivesReset (stats : StatsResponse) : Prop where
  reset : stats.cpuStats.cpuUsage.totalUsage < stats.preCPUStats.cpuUsage.totalUsage ∨
    stats.cpuStats.systemUsage < stats.preCPUStats.systemUsage → calcCPUPercent stats = 0
  idle : stats.cpuStats.systemUsage = stats.preCPUStats.systemUsage → calcCPUPercent stats = 0
  share : stats.preCPUStats.cpuUsage.totalUsage ≤ stats.cpuStats.cpuUsage.totalUsage →
    stats.preCPUStats.systemUsage < stats.cpuStats.systemUsage →
      calcCPUPercent stats =
        (float stats.cpuStats.cpuUsage.totalUsage - float stats.preCPUStats.cpuUsage.totalUsage) /
          (float stats.cpuStats.systemUsage - float stats.preCPUStats.systemUsage) *
          stats.cpuStats.cpus * 100

theorem float_nonneg (n : UInt64) : 0 ≤ float n := Nat.cast_nonneg _

theorem float_eq_zero {n : UInt64} : float n = 0 ↔ n = 0 := by
  rw [float, Nat.cast_eq_zero]
  exact UInt64.toNat_inj (b := 0)

theorem word_sub_eq_zero {a b : UInt64} : a - b = 0 ↔ a = b := by
  rw [UInt64.sub_eq_iff_eq_add, UInt64.zero_add]

theorem float_sub {a b : UInt64} (grown : b ≤ a) : float (a - b) = float a - float b := by
  have le : b.toNat ≤ a.toNat := UInt64.le_iff_toNat_le.mp grown
  rw [float, UInt64.toNat_sub_of_le _ _ grown, Nat.cast_sub le]
  rfl

theorem cpus_pos (s : CPUStats) : 0 < s.cpus := by
  unfold CPUStats.cpus
  dsimp only
  by_cases unset : (s.onlineCPUs.toNat : ℚ) = 0
  · by_cases none : (s.cpuUsage.percpuUsage.length : ℚ) = 0
    · rw [if_pos unset, if_pos none]
      exact zero_lt_one
    · rw [if_pos unset, if_neg none]
      exact lt_of_le_of_ne (Nat.cast_nonneg _) (Ne.symm none)
  · rw [if_neg unset, if_neg unset]
    exact lt_of_le_of_ne (Nat.cast_nonneg _) (Ne.symm unset)

/-- Both guards are about differences that are never negative. -/
theorem calcCPUPercent_eq (stats : StatsResponse) :
    calcCPUPercent stats =
      float (stats.cpuStats.cpuUsage.totalUsage - stats.preCPUStats.cpuUsage.totalUsage) /
        float (stats.cpuStats.systemUsage - stats.preCPUStats.systemUsage) * stats.cpuStats.cpus * 100 := by
  unfold calcCPUPercent
  dsimp only
  split
  next guarded =>
    rcases guarded with idle | negative
    · have zero := le_antisymm idle (float_nonneg _)
      rw [zero, div_zero, zero_mul, zero_mul]
    · exact absurd negative (float_nonneg _).not_gt
  next => rfl

theorem calcCPUPercent_eq_zero (stats : StatsResponse) :
    calcCPUPercent stats = 0 ↔
      stats.cpuStats.cpuUsage.totalUsage = stats.preCPUStats.cpuUsage.totalUsage ∨
        stats.cpuStats.systemUsage = stats.preCPUStats.systemUsage := by
  have cpus := (cpus_pos stats.cpuStats).ne'
  rw [calcCPUPercent_eq, mul_eq_zero, mul_eq_zero, div_eq_zero_iff, float_eq_zero, float_eq_zero,
    word_sub_eq_zero, word_sub_eq_zero]
  simp [cpus]

/-- A counter that goes back is not noticed, unless the other one stands still. -/
theorem survivesReset_iff (stats : StatsResponse) :
    SurvivesReset stats ↔
      stats.preCPUStats.cpuUsage.totalUsage ≤ stats.cpuStats.cpuUsage.totalUsage ∧
          stats.preCPUStats.systemUsage ≤ stats.cpuStats.systemUsage ∨
        stats.cpuStats.cpuUsage.totalUsage = stats.preCPUStats.cpuUsage.totalUsage ∨
        stats.cpuStats.systemUsage = stats.preCPUStats.systemUsage := by
  constructor
  · intro survives
    by_cases back : stats.cpuStats.cpuUsage.totalUsage < stats.preCPUStats.cpuUsage.totalUsage ∨
        stats.cpuStats.systemUsage < stats.preCPUStats.systemUsage
    · exact .inr ((calcCPUPercent_eq_zero stats).mp (survives.reset back))
    · obtain ⟨total, system⟩ := not_or.mp back
      exact .inl ⟨UInt64.not_lt.mp total, UInt64.not_lt.mp system⟩
  · intro kept
    have share (total : stats.preCPUStats.cpuUsage.totalUsage ≤ stats.cpuStats.cpuUsage.totalUsage)
        (system : stats.preCPUStats.systemUsage < stats.cpuStats.systemUsage) :=
      (calcCPUPercent_eq stats).trans (by rw [float_sub total, float_sub (UInt64.le_of_lt system)])
    refine ⟨fun back => ?_, fun idle => (calcCPUPercent_eq_zero stats).mpr (.inr idle), share⟩
    rcases kept with ⟨total, system⟩ | still
    · rcases back with lower | lower
      · exact absurd lower (UInt64.not_lt.mpr total)
      · exact absurd lower (UInt64.not_lt.mpr system)
    · exact (calcCPUPercent_eq_zero stats).mpr still

/-- A container that was restarted between the readings. -/
def restarted : StatsResponse where
  cpuStats := { cpuUsage := { totalUsage := 0 }, systemUsage := 20, onlineCPUs := 1 }
  preCPUStats := { cpuUsage := { totalUsage := 10 }, systemUsage := 10 }

theorem restarted_counted : ¬SurvivesReset restarted := by
  intro survives
  have zero := survives.reset (.inl (by decide))
  rw [calcCPUPercent_eq_zero] at zero
  exact absurd zero (by decide)

end Dockgraph.Collector
