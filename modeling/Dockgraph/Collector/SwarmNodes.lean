import Dockgraph.Collector.SwarmSnapshot
import Dockgraph.Library.Preferred

/-!
# One graph node for each hostname

The preference between nodes of one name is the order of a rank that no two nodes share, so the loop
over them leaves the same nodes in any order.
-/
namespace Dockgraph.Collector

open Keyed Preferred

/-! ## The preference -/

namespace Swarm

/-- Ready nodes come first, then those updated last. -/
def Node.rank (n : Node) : Bool ×ₗ Intᵒᵈ ×ₗ String :=
  toLex (n.state ≠ "ready", toLex (OrderDual.toDual n.updatedAt, n.id))

end Swarm

theorem preferSwarmNode_iff (a b : Swarm.Node) : preferSwarmNode a b = true ↔ a.rank < b.rank := by
  simp only [preferSwarmNode, Swarm.Node.rank, Prod.Lex.toLex_lt_toLex, OrderDual.toDual_lt_toDual]
  by_cases first : a.state = "ready" <;> by_cases second : b.state = "ready" <;>
    by_cases same : a.updatedAt = b.updatedAt <;> simp [first, second, same]

theorem preferSwarmNode_irrefl (a : Swarm.Node) : preferSwarmNode a a = false := by
  rw [← Bool.not_eq_true, preferSwarmNode_iff]
  exact lt_irrefl a.rank

theorem preferSwarmNode_trans (a b c : Swarm.Node) (first : preferSwarmNode a b = true)
    (second : preferSwarmNode b c = true) : preferSwarmNode a c = true := by
  rw [preferSwarmNode_iff] at first second ⊢
  exact first.trans second

theorem id_eq_of_rank_eq {a b : Swarm.Node} (same : a.rank = b.rank) : a.id = b.id :=
  congrArg (fun r => (ofLex (ofLex r).2).2) same

/-- Of two nodes with different IDs exactly one is preferred. -/
theorem preferSwarmNode_total {a b : Swarm.Node} (other : a.id ≠ b.id) :
    preferSwarmNode a b = true ↔ preferSwarmNode b a = false := by
  rw [← Bool.not_eq_true, preferSwarmNode_iff, preferSwarmNode_iff, not_lt]
  refine ⟨le_of_lt, fun le => le.lt_of_ne fun same => ?_⟩
  exact other (id_eq_of_rank_eq same)

theorem ready_of_prefer {a b : Swarm.Node} (preferred : preferSwarmNode a b = true) (ready : b.state = "ready") :
    a.state = "ready" := by
  by_contra stale
  simp [preferSwarmNode, ready, stale] at preferred

/-! ## The loop -/

theorem chooseNode_eq : chooseNode = choose swarmNodeName preferSwarmNode := by
  funext chosen n
  unfold chooseNode choose
  cases chosen.lookup (swarmNodeName n) <;> rfl

/-- The node of a name: preferred to all others of that name. -/
abbrev Shown (nodes : List Swarm.Node) : Swarm.Node → Prop := Best swarmNodeName preferSwarmNode nodes

theorem Shown.ready {nodes : List Swarm.Node} {n m : Swarm.Node} (shown : Shown nodes n) (listed : m ∈ nodes)
    (same : swarmNodeName m = swarmNodeName n) (ready : m.state = "ready") : n.state = "ready" := by
  rcases shown.beats m listed same with rfl | preferred
  · exact ready
  · exact ready_of_prefer preferred ready

section Loop

variable {nodes : List Swarm.Node} (distinct : (nodes.map Swarm.Node.id).Nodup)
include distinct

theorem total_of_distinct : ∀ a ∈ nodes, ∀ b ∈ nodes,
    a = b ∨ preferSwarmNode a b = true ∨ preferSwarmNode b a = true := by
  intro a ha b hb
  by_cases same : a.id = b.id
  · exact .inl (List.inj_on_of_nodup_map distinct ha hb same)
  · by_cases before : preferSwarmNode a b = true
    · exact .inr (.inl before)
    · rw [preferSwarmNode_total same, Bool.not_eq_false] at before
      exact .inr (.inr before)

theorem lookup_foldl_chooseNode {name : String} {n : Swarm.Node} :
    (nodes.foldl chooseNode ∅).lookup name = some n ↔ swarmNodeName n = name ∧ Shown nodes n := by
  rw [chooseNode_eq]
  exact lookup_foldl_choose preferSwarmNode_irrefl preferSwarmNode_trans (total_of_distinct distinct) name

theorem mem_buildSwarmNodeNodes {ord : RangeOrder} {g : Node} :
    g ∈ buildSwarmNodeNodes ord nodes ↔ ∃ n, Shown nodes n ∧ g = buildSwarmNodeNode (swarmNodeName n) n := by
  simp only [buildSwarmNodeNodes, List.mem_map, RangeOrder.mem_visit]
  constructor
  · rintro ⟨⟨name, n⟩, entry, rfl⟩
    obtain ⟨rfl, shown⟩ := (lookup_foldl_chooseNode distinct).mp (AList.mem_lookup_iff.mpr entry)
    exact ⟨n, shown, rfl⟩
  · rintro ⟨n, shown, rfl⟩
    refine ⟨⟨swarmNodeName n, n⟩, AList.mem_lookup_iff.mp ?_, rfl⟩
    exact (lookup_foldl_chooseNode distinct).mpr ⟨rfl, shown⟩

/-- Every name has a node that is preferred to all others of it. -/
theorem exists_shown {m : Swarm.Node} (listed : m ∈ nodes) :
    ∃ n, Shown nodes n ∧ swarmNodeName n = swarmNodeName m := by
  have kept : Chosen swarmNodeName preferSwarmNode nodes (nodes.foldl (choose swarmNodeName preferSwarmNode) ∅) :=
    chosen_foldl preferSwarmNode_trans (total_of_distinct distinct)
  obtain ⟨n, found⟩ := Option.isSome_iff_exists.mp (kept.covers m listed)
  obtain ⟨same, shown⟩ := kept.best _ n found
  exact ⟨n, shown, same⟩

end Loop

theorem nodup_names (ord : RangeOrder) (nodes : List Swarm.Node) :
    ((buildSwarmNodeNodes ord nodes).map Node.name).Nodup := by
  have keys : (buildSwarmNodeNodes ord nodes).map Node.name =
      (ord.visit (nodes.foldl chooseNode ∅).entries).map Sigma.fst := by
    rw [buildSwarmNodeNodes, List.map_map]
    rfl
  rw [keys]
  exact ((ord.perm _).map Sigma.fst).nodup_iff.mpr (AList.keys_nodup _)

/-- Exactly one graph node for each name, of the node that is preferred to all others of that name. -/
structure OnePerName (nodes : List Swarm.Node) (graph : List Node) : Prop where
  nodup : (graph.map Node.name).Nodup
  named : ∀ name, name ∈ graph.map Node.name ↔ ∃ n ∈ nodes, swarmNodeName n = name
  preferred : ∀ g ∈ graph, ∃ n ∈ nodes, g = buildSwarmNodeNode (swarmNodeName n) n ∧
    ∀ m ∈ nodes, swarmNodeName m = swarmNodeName n →
      (m ≠ n → preferSwarmNode n m = true) ∧ (m.state = "ready" → n.state = "ready")

theorem onePerName (ord : RangeOrder) {nodes : List Swarm.Node} (distinct : (nodes.map Swarm.Node.id).Nodup) :
    OnePerName nodes (buildSwarmNodeNodes ord nodes) where
  nodup := nodup_names ord nodes
  named name := by
    rw [List.mem_map]
    constructor
    · rintro ⟨g, member, rfl⟩
      obtain ⟨n, shown, rfl⟩ := (mem_buildSwarmNodeNodes distinct).mp member
      exact ⟨n, shown.mem, rfl⟩
    · rintro ⟨m, listed, rfl⟩
      obtain ⟨n, shown, same⟩ := exists_shown distinct listed
      exact ⟨_, (mem_buildSwarmNodeNodes distinct).mpr ⟨n, shown, rfl⟩, same⟩
  preferred g member := by
    obtain ⟨n, shown, rfl⟩ := (mem_buildSwarmNodeNodes distinct).mp member
    refine ⟨n, shown.mem, rfl, fun m listed same => ⟨fun other => ?_, shown.ready listed same⟩⟩
    exact (shown.beats m listed same).resolve_left other

/-- The graph has one node for each hostname, whatever the order of the list. -/
theorem swarmNodes_onePerName {nodes : List Swarm.Node} (distinct : (nodes.map Swarm.Node.id).Nodup) :
    (∀ ord, OnePerName nodes (buildSwarmNodeNodes ord nodes)) ∧
      (∀ nodes', nodes.Perm nodes' → ∀ ord ord' g,
        g ∈ buildSwarmNodeNodes ord nodes ↔ g ∈ buildSwarmNodeNodes ord' nodes') ∧
      (∀ a, preferSwarmNode a a = false) ∧
      (∀ a b c, preferSwarmNode a b = true → preferSwarmNode b c = true → preferSwarmNode a c = true) ∧
      ∀ a b : Swarm.Node, a.id ≠ b.id → (preferSwarmNode a b = true ↔ preferSwarmNode b a = false) := by
  refine ⟨fun ord => onePerName ord distinct, fun nodes' perm ord ord' g => ?_, preferSwarmNode_irrefl,
    preferSwarmNode_trans, fun a b => preferSwarmNode_total⟩
  have distinct' : (nodes'.map Swarm.Node.id).Nodup := (perm.map Swarm.Node.id).nodup_iff.mp distinct
  rw [mem_buildSwarmNodeNodes distinct, mem_buildSwarmNodeNodes distinct']
  exact exists_congr fun n => and_congr_left fun _ => ⟨fun best => best.perm perm, fun best => best.perm perm.symm⟩

/-- A node that left and came back under its hostname. -/
theorem swarmNodes_onePerName_rejoined :
    let stale : Swarm.Node := { id := "a", hostname := "w1", state := "down", updatedAt := 7 }
    let back : Swarm.Node := { id := "b", hostname := "w1", state := "ready", updatedAt := 3 }
    ∀ g, g ∈ buildSwarmNodeNodes .asWritten [stale, back] ↔ g ∈ buildSwarmNodeNodes .backwards [back, stale] := by
  intro stale back
  have distinct : ([stale, back].map Swarm.Node.id).Nodup := by decide
  exact (swarmNodes_onePerName distinct).2.1 [back, stale] (.swap _ _ []) .asWritten .backwards

end Dockgraph.Collector
