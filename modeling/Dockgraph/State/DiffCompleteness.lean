import Dockgraph.State.Diff
import Dockgraph.State.Graph

/-!
# Completeness of the diff

A delta rebuilds the new graph except where `nodeEqual` or the lookup of edges by
ID hides a change; both cases are characterised exactly.
-/
namespace Dockgraph.State

open Collector Keyed

/-! ## What the comparison of two nodes can miss -/

/-- Equally many labels, at least one of them gone; the ones that are gone had empty values and
the others are unchanged. Some new label then stands in for the lost one. -/
def LabelSwap (a b : StringMap) : Prop :=
  a.entries.keys.card = b.entries.keys.card ∧
  (∃ k ∈ a.entries.keys, k ∉ b.entries.keys) ∧
  ∀ k ∈ a.entries.keys, if k ∈ b.entries.keys then b.get k = a.get k else a.get k = ""

instance (a b : StringMap) : Decidable (LabelSwap a b) := by
  unfold LabelSwap
  infer_instance

theorem get_of_notMem (m : StringMap) {k : String} (absent : k ∉ m.entries.keys) : m.get k = "" := by
  have none : m.entries.lookup k = none := Finmap.lookup_eq_none.mpr (mt Finmap.mem_keys.mpr absent)
  simp [StringMap.get, none]

theorem lookup_eq_of_mem (m : StringMap) {k : String} (present : k ∈ m.entries.keys) :
    m.entries.lookup k = some (m.get k) := by
  obtain ⟨v, found⟩ := Finmap.mem_iff.mp (Finmap.mem_keys.mp present)
  simp [StringMap.get, found]

theorem entries_ext {a b : StringMap} (keys : a.entries.keys = b.entries.keys)
    (values : ∀ k ∈ a.entries.keys, b.get k = a.get k) : a.entries = b.entries := by
  apply Finmap.ext_lookup
  intro k
  by_cases present : k ∈ a.entries.keys
  · rw [lookup_eq_of_mem a present, lookup_eq_of_mem b (keys ▸ present), values k present]
  · have absent : k ∉ b.entries.keys := keys ▸ present
    rw [Finmap.lookup_eq_none.mpr (mt Finmap.mem_keys.mpr present),
      Finmap.lookup_eq_none.mpr (mt Finmap.mem_keys.mpr absent)]

/-- The loop over the labels passes exactly on equal maps and on label swaps. -/
theorem labelsEqual_iff (a b : StringMap) :
    labelsEqual a b = true ↔ a.entries = b.entries ∨ LabelSwap a b := by
  simp only [labelsEqual, decide_eq_true_eq]
  constructor
  · rintro ⟨sizes, reads⟩
    by_cases kept : a.entries.keys ⊆ b.entries.keys
    · left
      exact entries_ext (Finset.eq_of_subset_of_card_le kept sizes.symm.le) reads
    · right
      refine ⟨sizes, Finset.not_subset.mp kept, fun k present => ?_⟩
      split
      · exact reads k present
      next absent => rw [← reads k present, get_of_notMem b absent]
  · rintro (same | ⟨sizes, _, reads⟩)
    · exact ⟨by rw [same], fun k _ => by simp only [StringMap.get, same]⟩
    · refine ⟨sizes, fun k present => ?_⟩
      have read := reads k present
      split at read
      · exact read
      next absent => rw [read, get_of_notMem b absent]

theorem nodeEqual_iff (a b : Node) :
    nodeEqual a b = true ↔
      (nodeEqual { a with labels := b.labels } b = true ∧ labelsEqual a.labels b.labels = true) := by
  have self : labelsEqual b.labels b.labels = true := (labelsEqual_iff _ _).mpr (.inl rfl)
  simp only [nodeEqual, self, Bool.not_true]
  cases labelsEqual a.labels b.labels <;> simp

/-- Nodes that agree in all but the labels, and in the labels too, are the same node. -/
theorem normalize_eq_of_nodeEqual {a b : Node} (equal : nodeEqual a b = true)
    (labels : a.labels.entries = b.labels.entries) : a.normalize = b.normalize := by
  unfold nodeEqual at equal
  split at equal
  · cases equal
  next scalars =>
    split at equal
    · cases equal
    next ports =>
      split at equal
      · cases equal
      · simp only [decide_eq_true_eq] at equal
        simp only [not_or, ne_eq, not_not] at scalars ports
        obtain ⟨compose, service, swarmNode⟩ := equal
        cases a; cases b
        simp_all [Node.normalize]

theorem labels_of_normalize {a b : Node} (same : a.normalize = b.normalize) :
    a.labels.entries = b.labels.entries := by
  simpa [Node.normalize] using congrArg Node.labels same

/-- Two nodes `nodeEqual` takes for one differ only through a label swap. -/
theorem normalize_eq_iff {a b : Node} (equal : nodeEqual a b = true) :
    a.normalize = b.normalize ↔ ¬LabelSwap a.labels b.labels := by
  have labels := (labelsEqual_iff _ _).mp ((nodeEqual_iff a b).mp equal).2
  constructor
  · intro same swap
    obtain ⟨_, ⟨k, present, absent⟩, _⟩ := swap
    exact absent (labels_of_normalize same ▸ present)
  · intro noSwap
    exact normalize_eq_of_nodeEqual equal (labels.resolve_right noSwap)

/-! ## The four loops -/

theorem foldl_compareNode (prevNodes : AList (fun _ : String => Node))
    (entries : List ((_ : String) × Node)) (delta : DeltaUpdate) :
    entries.foldl (compareNode prevNodes) delta =
      { delta with
        nodesAdded := delta.nodesAdded ++ (entries.filter fun e => e.1 ∉ prevNodes).map Sigma.snd
        nodesUpdated := delta.nodesUpdated ++ (entries.filter fun e =>
          (prevNodes.lookup e.1).any fun p => !nodeEqual p e.2).map Sigma.snd } := by
  induction entries generalizing delta with
  | nil => simp
  | cons entry rest ih =>
    rw [List.foldl_cons, ih]
    cases found : prevNodes.lookup entry.1 with
    | none =>
      have absent : entry.1 ∉ prevNodes := AList.lookup_eq_none.mp found
      simp [compareNode, found, absent]
    | some prevNode =>
      have present : entry.1 ∈ prevNodes := AList.lookup_isSome.mp (by simp [found])
      cases equal : nodeEqual prevNode entry.2 <;> simp [compareNode, found, present, equal]

theorem foldl_dropNode (currNodes : AList (fun _ : String => Node)) (ids : List String)
    (delta : DeltaUpdate) :
    ids.foldl (dropNode currNodes) delta =
      { delta with nodesRemoved := delta.nodesRemoved ++ ids.filter fun id => id ∉ currNodes } := by
  induction ids generalizing delta with
  | nil => simp
  | cons id rest ih =>
    rw [List.foldl_cons, ih]
    by_cases present : id ∈ currNodes <;> simp [dropNode, present]

theorem foldl_compareEdge (prevEdges : AList (fun _ : String => Edge))
    (entries : List ((_ : String) × Edge)) (delta : DeltaUpdate) :
    entries.foldl (compareEdge prevEdges) delta =
      { delta with
        edgesAdded := delta.edgesAdded ++
          (entries.filter fun e => e.1 ∉ prevEdges).map Sigma.snd } := by
  induction entries generalizing delta with
  | nil => simp
  | cons entry rest ih =>
    rw [List.foldl_cons, ih]
    by_cases present : entry.1 ∈ prevEdges <;> simp [compareEdge, present]

theorem foldl_dropEdge (currEdges : AList (fun _ : String => Edge)) (ids : List String)
    (delta : DeltaUpdate) :
    ids.foldl (dropEdge currEdges) delta =
      { delta with edgesRemoved := delta.edgesRemoved ++ ids.filter fun id => id ∉ currEdges } := by
  induction ids generalizing delta with
  | nil => simp
  | cons id rest ih =>
    rw [List.foldl_cons, ih]
    by_cases present : id ∈ currEdges <;> simp [dropEdge, present]

section Parts

variable (ord : Nat → RangeOrder) (prev curr : GraphSnapshot)

/-- The nodes and edges a snapshot's index keeps: the last one of each ID. -/
def indexed (s : GraphSnapshot) : GraphSnapshot :=
  ⟨values (index Node.id s.nodes), values (index Edge.id s.edges)⟩

theorem diff_nodes :
    let d := (diffSnapshots ord (some prev) (some curr)).1
    IsDiff Node.id nodeEqual (indexed prev).nodes (indexed curr).nodes
      d.nodesAdded d.nodesRemoved d.nodesUpdated := by
  have listed := isDiff_index Node.id nodeEqual prev.nodes curr.nodes
    ((ord 0).perm _) ((ord 1).perm _)
  simpa only [diffSnapshots, foldl_compareNode, foldl_dropNode, foldl_compareEdge, foldl_dropEdge,
    indexNodes, indexEdges, List.nil_append, indexed] using listed

theorem diff_edges :
    let d := (diffSnapshots ord (some prev) (some curr)).1
    IsDiff Edge.id (fun _ _ => true) (indexed prev).edges (indexed curr).edges
      d.edgesAdded d.edgesRemoved [] := by
  have listed := isDiff_index Edge.id (fun _ _ => true) prev.edges curr.edges
    ((ord 2).perm _) ((ord 3).perm _)
  simpa [diffSnapshots, foldl_compareNode, foldl_dropNode, foldl_compareEdge, foldl_dropEdge,
    indexNodes, indexEdges, indexed] using listed

theorem unchanged_iff :
    (diffSnapshots ord (some prev) (some curr)).2 = false ↔
      (diffSnapshots ord (some prev) (some curr)).1 = {} := by
  generalize result : diffSnapshots ord (some prev) (some curr) = r
  have flag : r.2 = decide (r.1.nodesAdded.length > 0 ∨ r.1.nodesRemoved.length > 0 ∨
      r.1.nodesUpdated.length > 0 ∨ r.1.edgesAdded.length > 0 ∨ r.1.edgesRemoved.length > 0) := by
    rw [← result]; rfl
  rw [flag]
  obtain ⟨⟨added, removed, updated, edgesAdded, edgesRemoved⟩, _⟩ := r
  simp [List.length_pos_iff]

end Parts

/-! ## Completeness -/

/-- No change of one node or edge is hidden from the diff: no node kept under its ID differs by a
label swap alone, and no edge kept under its ID differs at all. -/
structure NoHiddenChange (prev curr : GraphSnapshot) : Prop where
  labels : ∀ p ∈ prev.nodes, ∀ c ∈ curr.nodes, p.id = c.id →
    nodeEqual { p with labels := c.labels } c = true → ¬LabelSwap p.labels c.labels
  edges : ∀ e ∈ prev.edges, ∀ f ∈ curr.edges, e.id = f.id → e = f

section Completeness

variable (ord : Nat → RangeOrder) {prev curr : GraphSnapshot}
variable (uniqueP : prev.UniqueIDs) (uniqueC : curr.UniqueIDs)
include uniqueP uniqueC

theorem patch_nodes_iff :
    ((GraphSnapshot.patch (diffSnapshots ord (some prev) (some curr)).1 prev).nodes.map
        Node.normalize).Perm (curr.nodes.map Node.normalize) ↔
      ∀ p ∈ prev.nodes, ∀ c ∈ curr.nodes, p.id = c.id →
        nodeEqual { p with labels := c.labels } c = true → ¬LabelSwap p.labels c.labels := by
  have diff := (diff_nodes ord prev curr).congr
    (fun _ => mem_values_index Node.id uniqueP.nodes)
    (fun _ => mem_values_index Node.id uniqueC.nodes)
  refine (diff.patch_perm_iff uniqueP.nodes uniqueC.nodes
    Node.normalize Node.id Node.normalize_id).trans ?_
  -- Under one ID the images differ through a label swap only, which passes the label loop.
  refine forall₄_congr fun p _ c _ => forall_congr' fun _ => ?_
  rw [nodeEqual_iff p c]
  constructor
  · intro exact equal swap
    have both : nodeEqual p c = true :=
      (nodeEqual_iff p c).mpr ⟨equal, (labelsEqual_iff _ _).mpr (.inr swap)⟩
    have same := exact ((nodeEqual_iff p c).mp both)
    exact (normalize_eq_iff both).mp same swap
  · rintro noSwap ⟨equal, labels⟩
    have both : nodeEqual p c = true := (nodeEqual_iff p c).mpr ⟨equal, labels⟩
    exact (normalize_eq_iff both).mpr (noSwap equal)

theorem patch_edges_iff :
    (GraphSnapshot.patch (diffSnapshots ord (some prev) (some curr)).1 prev).edges.Perm
        curr.edges ↔
      ∀ e ∈ prev.edges, ∀ f ∈ curr.edges, e.id = f.id → e = f := by
  have diff := (diff_edges ord prev curr).congr
    (fun _ => mem_values_index Edge.id uniqueP.edges)
    (fun _ => mem_values_index Edge.id uniqueC.edges)
  have images := diff.patch_perm_iff uniqueP.edges uniqueC.edges id Edge.id fun _ => rfl
  rw [List.map_id, List.map_id] at images
  refine images.trans ?_
  simp only [id_eq, forall_const]

theorem patch_same_iff :
    (GraphSnapshot.patch (diffSnapshots ord (some prev) (some curr)).1 prev).Same curr ↔
      NoHiddenChange prev curr := by
  rw [GraphSnapshot.Same, patch_nodes_iff ord uniqueP uniqueC, patch_edges_iff ord uniqueP uniqueC]
  exact ⟨fun h => ⟨h.1, h.2⟩, fun h => ⟨h.labels, h.edges⟩⟩

omit uniqueP uniqueC in
/-- An unreported change is one the patch misses. -/
theorem same_of_unchanged
    (unchanged : (diffSnapshots ord (some prev) (some curr)).2 = false)
    (patched : (GraphSnapshot.patch (diffSnapshots ord (some prev) (some curr)).1 prev).Same curr) :
    prev.Same curr := by
  rw [(unchanged_iff ord prev curr).mp unchanged] at patched
  simpa only [GraphSnapshot.patch, patch_nil] using patched

/-- The delta rebuilds the new graph, and `changed` is false on equal graphs only, exactly when
no change is hidden. -/
theorem diffSnapshots_complete_iff :
    ((GraphSnapshot.patch (diffSnapshots ord (some prev) (some curr)).1 prev).Same curr ∧
      ((diffSnapshots ord (some prev) (some curr)).2 = false → prev.Same curr)) ↔
    NoHiddenChange prev curr := by
  rw [← patch_same_iff ord uniqueP uniqueC]
  exact ⟨fun h => h.1, fun patched => ⟨patched, fun unchanged => same_of_unchanged ord unchanged patched⟩⟩

end Completeness

/-- A shop before and after a deployment: the web server has another image and label, the job is gone with its
edge, and a cache with a volume of its own has come. -/
def deployed (after : Bool) : GraphSnapshot where
  nodes :=
    [{ id := "network:front", type := "network", name := "front" },
      { id := "container:web", type := "container", name := "web", networkID := "network:front"
        image := if after then "web:2" else "web:1"
        labels := some (.singleton (if after then "canary" else "stable") "yes") },
      if after then { id := "container:cache", type := "container", name := "cache", networkID := "network:front" }
      else { id := "container:job", type := "container", name := "job", networkID := "network:front" }] ++
      if after then [{ id := "volume:warm", type := "volume", name := "warm" }] else []
  edges :=
    [{ id := "dep:web", type := "depends_on", source := "container:web", target := "network:front" },
      if after then
        { id := "mount:warm", type := "volume_mount", source := "volume:warm", target := "container:cache"
          mountPath := "/data" }
      else { id := "dep:job", type := "depends_on", source := "container:job", target := "container:web" }]

theorem diffSnapshots_complete_deployed :
    let (delta, changed) := diffSnapshots (fun _ => .backwards) (some (deployed false)) (some (deployed true))
    ((GraphSnapshot.patch delta (deployed false)).Same (deployed true) ∧
      (changed = false → (deployed false).Same (deployed true))) ∧
      delta.nodesAdded.map Node.id = ["container:cache", "volume:warm"] ∧ delta.nodesRemoved = ["container:job"] ∧
      delta.nodesUpdated.map Node.id = ["container:web"] ∧ delta.edgesAdded.map Edge.id = ["mount:warm"] ∧
      delta.edgesRemoved = ["dep:job"] :=
  ⟨(diffSnapshots_complete_iff (fun _ => .backwards) (by decide) (by decide)).mpr ⟨by decide, by decide⟩, by decide⟩

/-- A container whose label `drain` is renamed to `cordon`, both without a value. -/
def drained (label : String) : GraphSnapshot where
  nodes := [{ id := "container:web", type := "container", name := "web",
              labels := some (.singleton label "") }]

theorem diffSnapshots_misses_label_swap :
    ¬∀ (ord : Nat → RangeOrder) (prev curr : GraphSnapshot), prev.UniqueIDs → curr.UniqueIDs →
      (GraphSnapshot.patch (diffSnapshots ord (some prev) (some curr)).1 prev).Same curr ∧
      ((diffSnapshots ord (some prev) (some curr)).2 = false → prev.Same curr) := by
  intro complete
  have missed := (complete (fun _ => .asWritten) (drained "drain") (drained "cordon")
    (by decide) (by decide)).2 (by decide)
  exact absurd missed (by decide)

end Dockgraph.State
