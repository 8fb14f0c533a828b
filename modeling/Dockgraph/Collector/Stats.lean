import Dockgraph.Collector.AgentLocate
import Dockgraph.Library.MapLoop
import Mathlib.Algebra.Order.Ring.Unbundled.Rat

/-!
# Samples and their aggregates (`collector/stats_worker.go`, `collector/agent_stats.go`)

The agents' answers come in any order, and what an agent says of its containers is not checked.
-/
namespace Dockgraph.Collector

def swarmServiceNameLabel : String := "com.docker.swarm.service.name"

def ContainerSample.serviceName (s : ContainerSample) : String := s.labels.get swarmServiceNameLabel

/-- A sample with the node the server stamps it with, and the usage. -/
structure StampedSample extends ContainerSample where
  nodeID : String := ""
  nodeHostname : String := ""
  stats : ContainerStats

/-! ## The agents' samples -/

/-- The decoded answer of the agent that the pool discovered on a node. -/
structure AgentAnswer where
  nodeID : String
  hostname : String
  samples : List StampedSample
  known : nodeID ≠ ""

/-- What `Samples` gathers. -/
structure Polling extends Reported where
  samples : List StampedSample := []
  reporters : Claims := ∅
  reporting : List String := []

/-- Body of the loop over an answer's samples. -/
def Polling.add (a : AgentAnswer) (p : Polling) (s : StampedSample) : Polling :=
  if s.id = "" ∨ s.name = "" then p
  else
    let s := { s with nodeID := a.nodeID, nodeHostname := a.hostname }
    let tid := s.taskID
    let reporters := claim p.reporters ("container:" ++ s.id) a.nodeID
    { toReported := p.toReported.add a.nodeID s.toContainerSample
      samples := p.samples ++ [s]
      reporters := if tid ≠ "" then claim reporters ("task:" ++ tid) a.nodeID else reporters
      reporting := p.reporting }

/-- One goroutine, while it holds the lock. -/
def Polling.answer (p : Polling) (a : AgentAnswer) : Polling :=
  a.samples.foldl (Polling.add a) { p with reporting := p.reporting ++ [a.hostname] }

def reportedByOthers (reporters : Claims) (s : StampedSample) : Bool :=
  if (reporters.lookup ("container:" ++ s.id)).getD "" = "" then true
  else
    let tid := s.taskID
    tid ≠ "" ∧ (reporters.lookup ("task:" ++ tid)).getD "" = ""

/-- `AgentPool.Samples`: the answers in the order the goroutines get the lock. -/
def pollSamples (answers : List AgentAnswer) : Polling :=
  let p := answers.foldl Polling.answer {}
  { p with
    samples := p.samples.filter fun s => !reportedByOthers p.reporters s
    reporting := p.reporting.mergeSort fun a b => a ≤ b }

/-- The loop of `mergeSamples` over the remote samples. -/
def mergeNew (seenIDs : List String) : List StampedSample → List StampedSample
  | [] => []
  | s :: rest =>
    if s.id = "" ∨ s.id ∈ seenIDs then mergeNew seenIDs rest
    else s :: mergeNew (s.id :: seenIDs) rest

def mergeSamples (localSamples remote : List StampedSample) : List StampedSample :=
  if remote.length = 0 then localSamples
  else localSamples ++ mergeNew (localSamples.map (·.id)) remote

/-! ## Aggregates -/

def nodeStatsPrefix : String := "node:"

def isNodeSeries (key : String) : Bool := hasPrefix key nodeStatsPrefix

abbrev StatsMap := Finmap fun _ : String => ContainerStats

/-- The zero value of a map's element. -/
def ContainerStats.zero : ContainerStats :=
  { cpuPercent := 0, cpuThrottled := 0, memUsage := 0, memLimit := 0, netRx := 0, netTx := 0,
    netRxErrors := 0, netTxErrors := 0, blockRead := 0, blockWrite := 0, pids := 0 }

/-- A sum of `uint64`. -/
def add64 (a b : Nat) : Nat := (a + b) % 2 ^ 64

def addStats (agg s : ContainerStats) : ContainerStats where
  cpuPercent := agg.cpuPercent + s.cpuPercent
  cpuThrottled := max agg.cpuThrottled s.cpuThrottled
  memUsage := add64 agg.memUsage s.memUsage
  memLimit := add64 agg.memLimit s.memLimit
  netRx := add64 agg.netRx s.netRx
  netTx := add64 agg.netTx s.netTx
  netRxErrors := add64 agg.netRxErrors s.netRxErrors
  netTxErrors := add64 agg.netTxErrors s.netTxErrors
  blockRead := add64 agg.blockRead s.blockRead
  blockWrite := add64 agg.blockWrite s.blockWrite
  pids := add64 agg.pids s.pids

/-- `m[key] = addStats(m[key], s)` -/
def aggregate (m : StatsMap) (key : String) (s : ContainerStats) : StatsMap :=
  m.insert key (addStats ((m.lookup key).getD .zero) s)

structure Building where
  stats : StatsMap := ∅
  services : StatsMap := ∅
  nodes : StatsMap := ∅

/-- Body of the loop over the samples. -/
def Building.add (b : Building) (s : StampedSample) : Building where
  stats := if (b.stats.lookup s.name).isSome then b.stats else b.stats.insert s.name s.stats
  services :=
    let svc := s.serviceName
    if svc ≠ "" ∧ !isNodeSeries svc then aggregate b.services svc s.stats else b.services
  nodes :=
    if s.nodeHostname ≠ "" then aggregate b.nodes (nodeStatsPrefix ++ s.nodeHostname) s.stats
    else b.nodes

/-- The keys of the nodes that answered. -/
def reportingStats (reportingNodes : List String) : StatsMap :=
  reportingNodes.foldl
    (fun nodes host => if host ≠ "" then nodes.insert (nodeStatsPrefix ++ host) .zero else nodes) ∅

def buildStatsSnapshot (samples : List StampedSample) (reportingNodes : List String) : StatsSnapshot :=
  let b := samples.foldl Building.add { nodes := reportingStats reportingNodes }
  -- a container keeps its entry, a node's aggregate takes the key
  let stats := MapLoop.writeEach (fun _ taken agg => taken.getD agg) b.services b.stats
  { stats := MapLoop.writeEach (fun _ _ agg => agg) b.nodes stats }

end Dockgraph.Collector
