import Dockgraph.Collector.Stats
import Mathlib.Algebra.BigOperators.Group.List.Basic
import Mathlib.Algebra.GroupWithZero.Nat
import Mathlib.Algebra.Order.Ring.Rat
import Mathlib.Data.Rat.Defs

/-!
# Aggregates of nodes and services

The aggregates are sums over the samples under their key, whatever the order. A sample's own name is
a key too, and one that looks like a node's makes an entry no node answers for.
-/
namespace Dockgraph.Collector

/-! ## Sums -/

/-- A counter of all samples, modulo 2^64 as the code's type has it. -/
def sum64 (field : ContainerStats → Nat) (samples : List StampedSample) : Nat :=
  (samples.map fun s => field s.stats).sum % 2 ^ 64

/-- The usage of all samples: sums, those of counters modulo 2^64, the throttling of the worst, nothing for no sample. -/
def total (samples : List StampedSample) : ContainerStats where
  cpuPercent := (samples.map fun s => s.stats.cpuPercent).sum
  cpuThrottled := (samples.map fun s => s.stats.cpuThrottled).foldl max 0
  memUsage := sum64 (·.memUsage) samples
  memLimit := sum64 (·.memLimit) samples
  netRx := sum64 (·.netRx) samples
  netTx := sum64 (·.netTx) samples
  netRxErrors := sum64 (·.netRxErrors) samples
  netTxErrors := sum64 (·.netTxErrors) samples
  blockRead := sum64 (·.blockRead) samples
  blockWrite := sum64 (·.blockWrite) samples
  pids := sum64 (·.pids) samples

theorem sum64_append (field : ContainerStats → Nat) (samples : List StampedSample) (s : StampedSample) :
    sum64 field (samples ++ [s]) = add64 (sum64 field samples) (field s.stats) := by
  simp [sum64, add64]

theorem total_append (samples : List StampedSample) (s : StampedSample) :
    total (samples ++ [s]) = addStats (total samples) s.stats := by
  simp only [total, addStats, sum64_append]
  simp

theorem total_perm {xs ys : List StampedSample} (perm : xs.Perm ys) : total xs = total ys := by
  have sums (field : ContainerStats → Nat) : sum64 field xs = sum64 field ys := by
    rw [sum64, sum64, (perm.map _).sum_eq]
  have worst : (xs.map fun s => s.stats.cpuThrottled).foldl max 0 =
      (ys.map fun s => s.stats.cpuThrottled).foldl max 0 :=
    (perm.map _).foldl_eq 0
  simp only [total, sums, worst, (perm.map _).sum_eq]

/-! ## What the loop leaves -/

/-- The aggregate of one more sample, where it has a key. -/
def aggregateUnder (key : StampedSample → Option String) (m : StatsMap) (s : StampedSample) : StatsMap :=
  match key s with
  | some k => aggregate m k s.stats
  | none => m

def serviceKey (s : StampedSample) : Option String :=
  if s.serviceName ≠ "" ∧ !isNodeSeries s.serviceName then some s.serviceName else none

def nodeKey (s : StampedSample) : Option String :=
  if s.nodeHostname ≠ "" then some (nodeStatsPrefix ++ s.nodeHostname) else none

/-- A key that nothing or an empty aggregate is under has the sum of its samples. -/
theorem lookup_aggregateUnder (key : StampedSample → Option String) (samples : List StampedSample)
    {m : StatsMap} {k : String} (fresh : ∀ agg, m.lookup k = some agg → agg = .zero) :
    (samples.foldl (aggregateUnder key) m).lookup k =
      if ∃ s ∈ samples, key s = some k then some (total (samples.filter (key · = some k)))
      else m.lookup k := by
  induction samples using List.reverseRecOn with
  | nil => simp
  | append_singleton samples s ih =>
    rw [List.foldl_append, List.foldl_cons, List.foldl_nil, aggregateUnder]
    by_cases here : key s = some k
    · have counted : ((samples.foldl (aggregateUnder key) m).lookup k).getD .zero =
          total (samples.filter (key · = some k)) := by
        rw [ih]
        split
        · rfl
        next none =>
          have empty : samples.filter (key · = some k) = [] :=
            List.filter_eq_nil_iff.mpr fun t listed => by simpa using fun same => none ⟨t, listed, same⟩
          rw [empty]
          cases found : m.lookup k with
          | none => rfl
          | some agg => exact fresh agg found
      have some : ∃ t ∈ samples ++ [s], key t = some k := ⟨s, by simp, here⟩
      rw [if_pos some, List.filter_append, List.filter_cons_of_pos (by simpa using here),
        List.filter_nil, total_append, ← counted, here]
      exact Finmap.lookup_insert _
    · have same : (∃ t ∈ samples ++ [s], key t = some k) ↔ ∃ t ∈ samples, key t = some k := by
        simp [here]
      have kept : (samples ++ [s]).filter (key · = some k) = samples.filter (key · = some k) := by
        simp [here]
      rw [kept, if_congr same rfl rfl, ← ih]
      cases other : key s with
      | none => rfl
      | some k' =>
        refine Finmap.lookup_insert_of_ne _ fun equal => here ?_
        rw [other, equal]

theorem services_foldl (samples : List StampedSample) (b : Building) :
    (samples.foldl Building.add b).services =
      samples.foldl (aggregateUnder serviceKey) b.services := by
  have step (b : Building) (s : StampedSample) : (b.add s).services = aggregateUnder serviceKey b.services s := by
    simp only [Building.add, aggregateUnder, serviceKey]
    split <;> rfl
  exact (List.foldl_hom Building.services fun b s => (step b s).symm).symm

theorem nodes_foldl (samples : List StampedSample) (b : Building) :
    (samples.foldl Building.add b).nodes = samples.foldl (aggregateUnder nodeKey) b.nodes := by
  have step (b : Building) (s : StampedSample) : (b.add s).nodes = aggregateUnder nodeKey b.nodes s := by
    simp only [Building.add, aggregateUnder, nodeKey]
    split <;> rfl
  exact (List.foldl_hom Building.nodes fun b s => (step b s).symm).symm

/-- Only a sample's name is a key of the first map. -/
theorem lookup_stats_foldl (samples : List StampedSample) (b : Building) (k : String) :
    (((samples.foldl Building.add b).stats).lookup k).isSome =
      ((b.stats.lookup k).isSome || samples.any (·.name = k)) := by
  induction samples generalizing b with
  | nil => simp
  | cons s samples ih =>
    rw [List.foldl_cons, ih, List.any_cons, ← Bool.or_assoc]
    congr 1
    by_cases named : s.name = k
    · subst named
      simp only [Building.add, decide_true, Bool.or_true]
      split
      next taken => exact taken
      next => rw [Finmap.lookup_insert]; rfl
    · simp only [Building.add, named, decide_false, Bool.or_false]
      split
      · rfl
      · rw [Finmap.lookup_insert_of_ne _ (Ne.symm named)]

/-! ## Keys of nodes -/

theorem isNodeSeries_iff (key : String) : isNodeSeries key = true ↔ ∃ h, key = nodeStatsPrefix ++ h := by
  rw [isNodeSeries, hasPrefix, List.isPrefixOf_iff_prefix]
  constructor
  · rintro ⟨rest, split⟩
    refine ⟨String.ofList rest, String.toList_inj.mp ?_⟩
    rw [String.toList_append, String.toList_ofList, split]
  · rintro ⟨h, rfl⟩
    exact ⟨h.toList, String.toList_append.symm⟩

theorem nodeKey_iff {s : StampedSample} {h : String} :
    nodeKey s = some (nodeStatsPrefix ++ h) ↔ s.nodeHostname ≠ "" ∧ s.nodeHostname = h := by
  rw [nodeKey]
  split
  next named => simp [named, String.append_right_inj]
  next unnamed => simp [not_not.mp unnamed]

theorem lookup_reportingStats (reportingNodes : List String) (key : String) :
    (reportingStats reportingNodes).lookup key =
      if ∃ h ∈ reportingNodes, h ≠ "" ∧ nodeStatsPrefix ++ h = key then some .zero else none := by
  induction reportingNodes using List.reverseRecOn with
  | nil => rfl
  | append_singleton hosts host ih =>
    rw [reportingStats, List.foldl_append, ← reportingStats, List.foldl_cons, List.foldl_nil]
    by_cases named : host ≠ ""
    · rw [if_pos named]
      by_cases here : nodeStatsPrefix ++ host = key
      · subst here
        rw [Finmap.lookup_insert, if_pos ⟨host, by simp, named, rfl⟩]
      · rw [Finmap.lookup_insert_of_ne _ (Ne.symm here), ih]
        refine if_congr ?_ rfl rfl
        simp [here]
    · rw [if_neg named, ih]
      refine if_congr ?_ rfl rfl
      simp [not_not.mp named]

section Snapshot

variable {samples : List StampedSample} {reportingNodes : List String} {key : String}

/-- The node answered, or a sample is stamped with it. -/
def Known (samples : List StampedSample) (reportingNodes : List String) (host : String) : Prop :=
  host ≠ "" ∧ (host ∈ reportingNodes ∨ ∃ s ∈ samples, s.nodeHostname = host)

instance (host : String) : Decidable (Known samples reportingNodes host) :=
  inferInstanceAs (Decidable (_ ∧ _))

/-- The map of the nodes. -/
theorem lookup_nodes (host : String) :
    (samples.foldl (aggregateUnder nodeKey) (reportingStats reportingNodes)).lookup
        (nodeStatsPrefix ++ host) =
      if Known samples reportingNodes host then some (total (samples.filter (·.nodeHostname = host)))
      else none := by
  have zero : ∀ agg, (reportingStats reportingNodes).lookup (nodeStatsPrefix ++ host) = some agg →
      agg = .zero := by
    intro agg found
    rw [lookup_reportingStats] at found
    split at found <;> cases found
    rfl
  rw [lookup_aggregateUnder nodeKey samples zero, lookup_reportingStats]
  simp only [nodeKey_iff, String.append_right_inj]
  by_cases empty : host = ""
  · subst empty
    have unknown : ¬Known samples reportingNodes "" := fun known => known.1 rfl
    simp [unknown]
  · have stamped : samples.filter (fun s => s.nodeHostname ≠ "" ∧ s.nodeHostname = host) =
        samples.filter (·.nodeHostname = host) := by
      refine List.filter_congr fun s _ => decide_eq_decide.mpr ?_
      exact ⟨And.right, fun same => ⟨same ▸ empty, same⟩⟩
    rw [stamped]
    split
    next sampled =>
      obtain ⟨s, member, -, same⟩ := sampled
      rw [if_pos ⟨empty, .inr ⟨s, member, same⟩⟩]
    next unsampled =>
      refine if_congr ⟨?_, ?_⟩ ?_ rfl
      · rintro ⟨h, listed, -, rfl⟩
        exact ⟨empty, .inl listed⟩
      · rintro ⟨-, listed | ⟨s, member, same⟩⟩
        · exact ⟨host, listed, empty, rfl⟩
        · exact absurd ⟨s, member, same ▸ empty, same⟩ unsampled
      · have none : samples.filter (·.nodeHostname = host) = [] := by
          refine List.filter_eq_nil_iff.mpr fun s member stamp => unsampled ⟨s, member, ?_⟩
          have same : s.nodeHostname = host := by simpa using stamp
          exact ⟨same ▸ empty, same⟩
        rw [none]
        rfl

theorem lookup_buildStatsSnapshot :
    (buildStatsSnapshot samples reportingNodes).stats.lookup key =
      ((samples.foldl (aggregateUnder nodeKey) (reportingStats reportingNodes)).lookup key).or
        (((samples.foldl Building.add { nodes := reportingStats reportingNodes }).stats.lookup key).or
          ((samples.foldl (aggregateUnder serviceKey) ∅).lookup key)) := by
  simp only [buildStatsSnapshot, MapLoop.lookup_writeEach, nodes_foldl, services_foldl]
  cases (samples.foldl (aggregateUnder nodeKey) (reportingStats reportingNodes)).lookup key with
  | some agg => rfl
  | none =>
    cases (samples.foldl (aggregateUnder serviceKey) ∅).lookup key with
    | none => simp
    | some agg =>
      cases ((samples.foldl Building.add { nodes := reportingStats reportingNodes }).stats.lookup key) <;>
        rfl

/-- Another key is not in the map of the nodes. -/
theorem lookup_nodes_other (other : isNodeSeries key = false) :
    (samples.foldl (aggregateUnder nodeKey) (reportingStats reportingNodes)).lookup key = none := by
  have apart (host : String) : nodeStatsPrefix ++ host ≠ key := by
    rintro rfl
    have series := (isNodeSeries_iff _).mpr ⟨host, rfl⟩
    rw [other] at series
    cases series
  have unreported : (reportingStats reportingNodes).lookup key = none := by
    rw [lookup_reportingStats, if_neg]
    rintro ⟨host, -, -, same⟩
    exact apart host same
  rw [lookup_aggregateUnder nodeKey samples (by simp [unreported]), unreported, if_neg]
  rintro ⟨s, -, named⟩
  rw [nodeKey] at named
  split at named
  · exact apart _ (Option.some.inj named)
  · cases named

theorem serviceKey_iff {s : StampedSample} :
    serviceKey s = some key ↔ key ≠ "" ∧ isNodeSeries key = false ∧ s.serviceName = key := by
  rw [serviceKey]
  constructor
  · intro named
    split at named
    next guard =>
      cases named
      exact ⟨guard.1, by simpa using guard.2, rfl⟩
    next => cases named
  · rintro ⟨some, other, rfl⟩
    rw [if_pos ⟨some, by simpa using other⟩]

theorem lookup_services :
    (samples.foldl (aggregateUnder serviceKey) ∅).lookup key =
      if ∃ s ∈ samples, serviceKey s = some key then
        some (total (samples.filter (serviceKey · = some key)))
      else none :=
  lookup_aggregateUnder serviceKey samples (by simp)

/-- A service has an aggregate of its own, unless a container has its name. -/
def Aggregated (samples : List StampedSample) (key : String) : Prop :=
  key ≠ "" ∧ isNodeSeries key = false ∧ (∃ s ∈ samples, s.serviceName = key) ∧
    ∀ s ∈ samples, s.name ≠ key

/-- The aggregates are those of the samples, and no key stands for a node that is not there. -/
structure Genuine (samples : List StampedSample) (reportingNodes : List String) : Prop where
  keys : ∀ key, isNodeSeries key = true →
    (((buildStatsSnapshot samples reportingNodes).stats.lookup key).isSome = true ↔
      ∃ host, Known samples reportingNodes host ∧ key = nodeStatsPrefix ++ host)
  nodes : ∀ host, Known samples reportingNodes host →
    (buildStatsSnapshot samples reportingNodes).stats.lookup (nodeStatsPrefix ++ host) =
      some (total (samples.filter (·.nodeHostname = host)))
  services : ∀ key, Aggregated samples key →
    (buildStatsSnapshot samples reportingNodes).stats.lookup key =
      some (total (samples.filter (·.serviceName = key)))
  unordered : ∀ samples' : List StampedSample, samples'.Perm samples →
    ∀ key, isNodeSeries key = true ∨ Aggregated samples key →
      (buildStatsSnapshot samples' reportingNodes).stats.lookup key =
        (buildStatsSnapshot samples reportingNodes).stats.lookup key

/-- A container that is named like a node's series has the name of one that is there. -/
def Unforged (samples : List StampedSample) (reportingNodes : List String) : Prop :=
  ∀ s ∈ samples, isNodeSeries s.name = true →
    ∃ host, Known samples reportingNodes host ∧ s.name = nodeStatsPrefix ++ host

theorem lookup_known {host : String} (known : Known samples reportingNodes host) :
    (buildStatsSnapshot samples reportingNodes).stats.lookup (nodeStatsPrefix ++ host) =
      some (total (samples.filter (·.nodeHostname = host))) := by
  rw [lookup_buildStatsSnapshot, lookup_nodes, if_pos known]
  rfl

theorem lookup_aggregated (aggregated : Aggregated samples key) :
    (buildStatsSnapshot samples reportingNodes).stats.lookup key =
      some (total (samples.filter (·.serviceName = key))) := by
  obtain ⟨named, other, ⟨s, member, labelled⟩, unshadowed⟩ := aggregated
  have unnamed : (samples.foldl Building.add { nodes := reportingStats reportingNodes }).stats.lookup key =
      none := by
    rw [← Option.isNone_iff_eq_none, ← Option.isSome_eq_false_iff, lookup_stats_foldl]
    simpa using unshadowed
  have same : samples.filter (serviceKey · = some key) = samples.filter (·.serviceName = key) :=
    List.filter_congr fun t _ => by simp [serviceKey_iff, named, other]
  rw [lookup_buildStatsSnapshot, lookup_nodes_other other, unnamed, lookup_services,
    if_pos ⟨s, member, serviceKey_iff.mpr ⟨named, other, labelled⟩⟩, same]
  rfl

/-- A key of a series that no node answers for is a container's name. -/
theorem isSome_unknown {host : String} (unknown : ¬Known samples reportingNodes host) :
    ((buildStatsSnapshot samples reportingNodes).stats.lookup (nodeStatsPrefix ++ host)).isSome =
      samples.any (·.name = nodeStatsPrefix ++ host) := by
  have series : isNodeSeries (nodeStatsPrefix ++ host) = true := (isNodeSeries_iff _).mpr ⟨host, rfl⟩
  have unserved : (samples.foldl (aggregateUnder serviceKey) ∅).lookup (nodeStatsPrefix ++ host) = none := by
    rw [lookup_services, if_neg]
    rintro ⟨s, -, keyed⟩
    have other := (serviceKey_iff.mp keyed).2.1
    rw [series] at other
    cases other
  rw [lookup_buildStatsSnapshot, lookup_nodes, if_neg unknown, unserved, Option.none_or, Option.or_none,
    lookup_stats_foldl]
  rfl

theorem Known.perm {samples' : List StampedSample} {host : String} (perm : samples'.Perm samples) :
    Known samples' reportingNodes host ↔ Known samples reportingNodes host := by
  simp only [Known, perm.mem_iff]

end Snapshot

theorem Genuine.unforged {samples : List StampedSample} {reportingNodes : List String}
    (genuine : Genuine samples reportingNodes) : Unforged samples reportingNodes := by
  intro s member series
  refine (genuine.keys s.name series).mp ?_
  by_cases known : ∃ host, Known samples reportingNodes host ∧ s.name = nodeStatsPrefix ++ host
  · exact (genuine.keys s.name series).mpr known
  · obtain ⟨host, named⟩ := (isNodeSeries_iff _).mp series
    rw [named, isSome_unknown fun there => known ⟨host, there, named⟩]
    exact List.any_eq_true.mpr ⟨s, member, by simpa using named⟩

/-- The aggregates are genuine just when no container is named like a series of a node that is not
there. -/
theorem genuine_iff (samples : List StampedSample) (reportingNodes : List String) :
    Genuine samples reportingNodes ↔ Unforged samples reportingNodes := by
  constructor
  · exact Genuine.unforged
  · intro unforged
    have unknown (host : String) (missing : ¬Known samples reportingNodes host) :
        (buildStatsSnapshot samples reportingNodes).stats.lookup (nodeStatsPrefix ++ host) = none := by
      rw [← Option.isNone_iff_eq_none, ← Option.isSome_eq_false_iff, isSome_unknown missing, List.any_eq_false]
      intro s member named
      have named : s.name = nodeStatsPrefix ++ host := by simpa using named
      obtain ⟨other, there, same⟩ := unforged s member (named ▸ (isNodeSeries_iff _).mpr ⟨host, rfl⟩)
      rw [String.append_right_inj _ |>.mp (same.symm.trans named)] at there
      exact missing there
    refine ⟨fun key series => ?_, fun _ => lookup_known, fun _ => lookup_aggregated, ?_⟩
    · obtain ⟨host, rfl⟩ := (isNodeSeries_iff _).mp series
      by_cases known : Known samples reportingNodes host
      · rw [lookup_known known]
        exact ⟨fun _ => ⟨host, known, rfl⟩, fun _ => rfl⟩
      · rw [unknown host known]
        refine ⟨nofun, ?_⟩
        rintro ⟨other, there, same⟩
        rw [← String.append_right_inj _ |>.mp same] at there
        exact absurd there known
    · intro samples' perm key shown
      rcases shown with series | aggregated
      · obtain ⟨host, rfl⟩ := (isNodeSeries_iff _).mp series
        by_cases known : Known samples reportingNodes host
        · rw [lookup_known known, lookup_known ((Known.perm perm).mpr known), total_perm (perm.filter _)]
        · have missing : ¬Known samples' reportingNodes host := known ∘ (Known.perm perm).mp
          have none := isSome_unknown missing
          rw [perm.any_eq, ← isSome_unknown known, unknown host known] at none
          rw [unknown host known]
          simpa using none
      · have aggregated' : Aggregated samples' key := by
          simpa only [Aggregated, perm.mem_iff] using aggregated
        rw [lookup_aggregated aggregated, lookup_aggregated aggregated', total_perm (perm.filter _)]

/-- A container named like a series of a node that is not there. -/
theorem forged : ¬∀ (samples : List StampedSample) (reportingNodes : List String),
    Genuine samples reportingNodes := by
  intro all
  let s : StampedSample := { id := "c", name := "node:x", nodeHostname := "h", stats := .zero }
  obtain ⟨host, known, named⟩ := (all [s] ["h"]).unforged s (by simp) (by decide)
  have here : host = "x" := (String.append_right_inj nodeStatsPrefix).mp named.symm
  subst here
  simp [Known, s] at known

end Dockgraph.Collector
