import Dockgraph.Library.Text
import Dockgraph.Library.Transition
import Dockgraph.State.Manager

/-!
# The merged graph

Nodes are merged by name and type, edges and references by ID. As long as the IDs of nodes
follow one scheme, what `mergeSnapshots` builds is closed: sorted, without duplicates and
without dangling references.
-/
namespace Dockgraph.State

open Collector Keyed Transition

/-! ## The loops of the merge -/

theorem flattenSnapshots_eq (ord : RangeOrder) (snaps : Snapshots) :
    flattenSnapshots ord snaps =
      (index nodeKey ((ord.visit snaps.entries).flatMap fun e => e.2.nodes),
        (ord.visit snaps.entries).flatMap fun e => e.2.edges) := by
  -- The node map built so far is the index of the nodes seen so far.
  have loop : ∀ (entries : List ((_ : String) × GraphSnapshot)) (nodes : List Node)
      (edges : List Edge),
      entries.foldl flattenSnapshot (index nodeKey nodes, edges) =
        (index nodeKey (nodes ++ entries.flatMap fun e => e.2.nodes),
          edges ++ entries.flatMap fun e => e.2.edges) := by
    intro entries
    induction entries with
    | nil => simp
    | cons entry rest ih =>
      intro nodes edges
      have first : flattenSnapshot (index nodeKey nodes, edges) entry =
          (index nodeKey (nodes ++ entry.2.nodes), edges ++ entry.2.edges) := by
        simp [flattenSnapshot, index, List.foldl_append]
      rw [List.foldl_cons, first, ih]
      simp
  simpa [flattenSnapshots, index] using loop (ord.visit snaps.entries) [] []

/-- What the loop over the runtime nodes makes of one of them. -/
def overlay (composeNodes : NodeMap) (entry : (_ : NodeKey) × Node) : Node :=
  match composeNodes.lookup entry.1 with
  | some composeNode => backfill entry.2 composeNode
  | none => entry.2

theorem foldl_mergeDockerNode (composeNodes : NodeMap) (entries : List ((_ : NodeKey) × Node))
    (acc : List Node × Finset NodeKey) :
    entries.foldl (mergeDockerNode composeNodes) acc =
      (acc.1 ++ entries.map (overlay composeNodes), acc.2 ∪ (entries.map Sigma.fst).toFinset) := by
  induction entries generalizing acc with
  | nil => simp
  | cons entry rest ih =>
    have first : mergeDockerNode composeNodes acc entry =
        (acc.1 ++ [overlay composeNodes entry], insert entry.1 acc.2) := by
      unfold mergeDockerNode overlay
      cases composeNodes.lookup entry.1 <;> rfl
    rw [List.foldl_cons, first, ih]
    simp [Finset.insert_union, Finset.union_insert]

theorem foldl_mergeComposeNode (seen : Finset NodeKey) (entries : List ((_ : NodeKey) × Node))
    (result : List Node) :
    entries.foldl (mergeComposeNode seen) result =
      result ++ (entries.filter fun e => e.1 ∉ seen).map Sigma.snd := by
  induction entries generalizing result with
  | nil => simp
  | cons entry rest ih =>
    rw [List.foldl_cons, ih]
    by_cases present : entry.1 ∈ seen <;> simp [mergeComposeNode, present]

theorem mergeNodes_eq (ord : Nat → RangeOrder) (dockerNodes composeNodes : NodeMap) :
    mergeNodes ord dockerNodes composeNodes =
      ((ord 0).visit dockerNodes.entries).map (overlay composeNodes) ++
        (((ord 1).visit composeNodes.entries).filter fun e => e.1 ∉ dockerNodes).map Sigma.snd := by
  have seen : ∀ k, k ∈ (((ord 0).visit dockerNodes.entries).map Sigma.fst).toFinset ↔
      k ∈ dockerNodes := by
    intro k
    rw [List.mem_toFinset, (((ord 0).perm dockerNodes.entries).map Sigma.fst).mem_iff]
    exact Iff.rfl
  simp [mergeNodes, foldl_mergeDockerNode, foldl_mergeComposeNode, seen]

/-! ## Nodes keep their identity -/

/-- All but the two backfilled fields are the runtime node's. -/
theorem backfill_eq (d c : Node) :
    backfill d c =
      { d with
        source := if c.source ≠ "" then c.source else d.source
        networkID := if d.networkID = "" then c.networkID else d.networkID } := by
  obtain ⟨id, type, name, image, status, ports, labels, networkID⟩ := d
  by_cases source : c.source = "" <;> by_cases network : networkID = "" <;>
    by_cases known : c.networkID = "" <;> simp [backfill, source, network, known]

@[simp] theorem backfill_id (d c : Node) : (backfill d c).id = d.id := by
  rw [backfill_eq]

@[simp] theorem nodeKey_backfill (d c : Node) : nodeKey (backfill d c) = nodeKey d := by
  rw [backfill_eq]
  rfl

@[simp] theorem overlay_id (composeNodes : NodeMap) (e : (_ : NodeKey) × Node) :
    (overlay composeNodes e).id = e.2.id := by
  unfold overlay
  split <;> simp

@[simp] theorem nodeKey_overlay (composeNodes : NodeMap) (e : (_ : NodeKey) × Node) :
    nodeKey (overlay composeNodes e) = nodeKey e.2 := by
  unfold overlay
  split <;> simp

/-- A node map that holds every node under its own key. -/
def WellKeyed (m : NodeMap) : Prop := ∀ e ∈ m.entries, nodeKey e.2 = e.1

theorem wellKeyed_index (nodes : List Node) : WellKeyed (index nodeKey nodes) := fun _ member =>
  (mem_of_lookup_index nodeKey (AList.mem_lookup_iff.mpr member)).2

section MergeNodes

variable (ord : Nat → RangeOrder) {dockerNodes composeNodes : NodeMap}
variable (docker : WellKeyed dockerNodes) (compose : WellKeyed composeNodes)

theorem mem_mergeNodes {n : Node} :
    n ∈ mergeNodes ord dockerNodes composeNodes ↔
      (∃ e ∈ dockerNodes.entries, overlay composeNodes e = n) ∨
      (∃ e ∈ composeNodes.entries, e.1 ∉ dockerNodes ∧ e.2 = n) := by
  simp [mergeNodes_eq, and_assoc]

include docker compose

/-- Every key is merged once. -/
theorem mergeNodes_nodup : ((mergeNodes ord dockerNodes composeNodes).map nodeKey).Nodup := by
  have keys : ((mergeNodes ord dockerNodes composeNodes).map nodeKey) =
      ((ord 0).visit dockerNodes.entries).map Sigma.fst ++
        (((ord 1).visit composeNodes.entries).filter fun e => e.1 ∉ dockerNodes).map Sigma.fst := by
    rw [mergeNodes_eq, List.map_append, List.map_map, List.map_map]
    congr 1
    · refine List.map_congr_left fun e member => ?_
      rw [Function.comp_apply, nodeKey_overlay, docker e (((ord 0).mem_visit _ _).mp member)]
    · refine List.map_congr_left fun e member => ?_
      exact compose e (((ord 1).mem_visit _ _).mp (List.mem_filter.mp member).1)
  have dockerKeys := (((ord 0).perm dockerNodes.entries).map Sigma.fst).nodup_iff.mpr
    dockerNodes.keys_nodup
  have composeKeys := (((ord 1).perm composeNodes.entries).map Sigma.fst).nodup_iff.mpr
    composeNodes.keys_nodup
  rw [keys]
  refine List.Nodup.append dockerKeys ((List.filter_sublist.map _).nodup composeKeys) ?_
  -- A key of the second part is not one of the runtime nodes.
  intro k inDocker inCompose
  obtain ⟨e, member, rfl⟩ := List.mem_map.mp inCompose
  have absent : e.1 ∉ dockerNodes := by simpa using (List.mem_filter.mp member).2
  exact absent ((((ord 0).perm dockerNodes.entries).map Sigma.fst).mem_iff.mp inDocker)

end MergeNodes

/-! ## Dangling networks, edges and sorting -/

/-- What the cleanup makes of one node. -/
def clearNetworkID (ids : Finset String) (n : Node) : Node :=
  if n.networkID ≠ "" ∧ n.networkID ∉ ids then { n with networkID := "" } else n

theorem clearDanglingNetworkIDs_eq (nodes : List Node) :
    clearDanglingNetworkIDs nodes = nodes.map (clearNetworkID (nodeIDs nodes)) := rfl

@[simp] theorem clearNetworkID_id (ids : Finset String) (n : Node) :
    (clearNetworkID ids n).id = n.id := by
  unfold clearNetworkID
  split <;> rfl

@[simp] theorem map_id_clearDanglingNetworkIDs (nodes : List Node) :
    (clearDanglingNetworkIDs nodes).map Node.id = nodes.map Node.id := by
  simp [clearDanglingNetworkIDs_eq]

theorem networkID_clearNetworkID {ids : Finset String} {n : Node}
    (set : (clearNetworkID ids n).networkID ≠ "") : (clearNetworkID ids n).networkID ∈ ids := by
  unfold clearNetworkID at set ⊢
  split at set
  · exact absurd rfl set
  next kept =>
    rw [if_neg kept]
    by_contra dangling
    exact kept ⟨set, dangling⟩

/-- Both endpoints of the edge are known. -/
def Grounded (ids : Finset String) (e : Edge) : Prop := e.source ∈ ids ∧ e.target ∈ ids

instance (ids : Finset String) (e : Edge) : Decidable (Grounded ids e) :=
  inferInstanceAs (Decidable (_ ∧ _))

/-- What `add` keeps: the IDs seen are those of the result, each once, all edges grounded. -/
structure Collected (ids : Finset String) (acc : List Edge × Finset String) : Prop where
  seen : ∀ k, k ∈ acc.2 ↔ k ∈ acc.1.map Edge.id
  unique : (acc.1.map Edge.id).Nodup
  grounded : ∀ e ∈ acc.1, Grounded ids e

theorem collected_addEdge {ids : Finset String} {acc : List Edge × Finset String} {e : Edge}
    (before : Collected ids acc) : Collected ids (addEdge ids acc e) := by
  unfold addEdge
  split
  · exact before
  next fresh =>
    simp only [not_or, not_not] at fresh
    obtain ⟨unseen, source, target⟩ := fresh
    have absent : e.id ∉ acc.1.map Edge.id := fun member => unseen ((before.seen e.id).mpr member)
    refine ⟨fun k => ?_, ?_, fun f member => ?_⟩
    · simp [before.seen, or_comm]
    · rw [List.map_append]
      exact before.unique.append (List.nodup_singleton _) (by simpa using absent)
    · rcases List.mem_append.mp member with old | new
      · exact before.grounded f old
      · exact List.mem_singleton.mp new ▸ ⟨source, target⟩

theorem collected_foldl {ids : Finset String} (edges : List Edge)
    {acc : List Edge × Finset String} (before : Collected ids acc) :
    Collected ids (edges.foldl (addEdge ids) acc) := by
  induction edges generalizing acc with
  | nil => exact before
  | cons e rest ih => exact ih (collected_addEdge before)

theorem collected_mergeEdges (dockerEdges composeEdges : List Edge) (nodes : List Node) :
    ((mergeEdges dockerEdges composeEdges nodes).map Edge.id).Nodup ∧
      ∀ e ∈ mergeEdges dockerEdges composeEdges nodes, Grounded (nodeIDs nodes) e := by
  have start : Collected (nodeIDs nodes) ([], ∅) := ⟨by simp, by simp, by simp⟩
  have result := collected_foldl composeEdges (collected_foldl dockerEdges start)
  exact ⟨result.unique, result.grounded⟩

section SortByID

variable {α : Type} (ord : RangeOrder) (id : α → String) (xs : List α)

theorem sortByID_perm : (sortByID ord id xs).Perm xs :=
  (List.perm_insertionSort _ _).trans (ord.perm xs)

@[simp] theorem mem_sortByID {x : α} : x ∈ sortByID ord id xs ↔ x ∈ xs :=
  (sortByID_perm ord id xs).mem_iff

theorem sortByID_strict (unique : (xs.map id).Nodup) :
    (sortByID ord id xs).Pairwise fun a b => id a < id b := by
  have sorted : (sortByID ord id xs).Pairwise fun a b => id a ≤ id b :=
    List.pairwise_insertionSort (fun a b => id a ≤ id b) (ord.visit xs)
  have distinct : (sortByID ord id xs).Pairwise fun a b => id a ≠ id b :=
    List.pairwise_map.mp (((sortByID_perm ord id xs).map id).nodup_iff.mpr unique)
  exact (sorted.and distinct).imp fun h => lt_of_le_of_ne h.1 h.2

end SortByID

/-! ## Closed graphs -/

/-- Node IDs as the collectors give them: determined by type and name, and determining both for
the types there are. -/
structure IDScheme where
  types : List String
  ident : String → String → String
  inj : ∀ t ∈ types, ∀ u ∈ types, ∀ n m, ident t n = ident u m → t = u ∧ n = m

structure IDScheme.Identifies (scheme : IDScheme) (n : Node) : Prop where
  type : n.type ∈ scheme.types
  id : n.id = scheme.ident n.type n.name

/-- Every node of the snapshot has the ID of its type and name. -/
def IDScheme.Follows (scheme : IDScheme) (s : GraphSnapshot) : Prop :=
  ∀ n ∈ s.nodes, scheme.Identifies n

structure Closed (g : GraphSnapshot) : Prop where
  nodes : g.nodes.Pairwise fun a b => a.id < b.id
  edges : g.edges.Pairwise fun a b => a.id < b.id
  endpoints : ∀ e ∈ g.edges, Grounded (nodeIDs g.nodes) e
  networks : ∀ n ∈ g.nodes, n.networkID ≠ "" → n.networkID ∈ nodeIDs g.nodes

theorem Closed.uniqueIDs {g : GraphSnapshot} (closed : Closed g) : g.UniqueIDs :=
  ⟨List.pairwise_map.mpr (closed.nodes.imp fun h => h.ne),
    List.pairwise_map.mpr (closed.edges.imp fun h => h.ne)⟩

theorem closed_empty : Closed {} := ⟨.nil, .nil, by simp, by simp⟩

theorem nodeIDs_congr {xs ys : List Node} (perm : xs.Perm ys) : nodeIDs xs = nodeIDs ys :=
  List.toFinset_eq_of_perm _ _ (perm.map Node.id)

theorem nodeIDs_clearDanglingNetworkIDs (nodes : List Node) :
    nodeIDs (clearDanglingNetworkIDs nodes) = nodeIDs nodes := by
  simp [nodeIDs]

section Identity

variable {scheme : IDScheme}

theorem nodeKey_eq_of_id_eq {n m : Node} (hn : scheme.Identifies n) (hm : scheme.Identifies m)
    (same : n.id = m.id) : nodeKey n = nodeKey m := by
  rw [hn.id, hm.id] at same
  obtain ⟨type, name⟩ := scheme.inj _ hn.type _ hm.type _ _ same
  simp [nodeKey, type, name]

theorem identifies_congr {n m : Node} (key : nodeKey n = nodeKey m) (id : n.id = m.id)
    (hn : scheme.Identifies n) : scheme.Identifies m := by
  simp only [nodeKey, NodeKey.mk.injEq] at key
  obtain ⟨name, type⟩ := key
  exact ⟨type ▸ hn.type, by rw [← id, hn.id, type, name]⟩

/-- Distinct keys are distinct IDs. -/
theorem nodup_id_of_nodup_key {nodes : List Node} (keys : (nodes.map nodeKey).Nodup)
    (identified : ∀ n ∈ nodes, scheme.Identifies n) : (nodes.map Node.id).Nodup := by
  refine List.Nodup.map_on (fun n hn m hm same => ?_) (keys.of_map nodeKey)
  exact List.inj_on_of_nodup_map keys hn hm
    (nodeKey_eq_of_id_eq (identified n hn) (identified m hm) same)

theorem mergeNodes_identified (ord : Nat → RangeOrder) {dockerNodes composeNodes : NodeMap}
    (docker : ∀ e ∈ dockerNodes.entries, scheme.Identifies e.2)
    (compose : ∀ e ∈ composeNodes.entries, scheme.Identifies e.2) :
    ∀ n ∈ mergeNodes ord dockerNodes composeNodes, scheme.Identifies n := by
  intro n member
  rcases (mem_mergeNodes ord).mp member with ⟨e, he, rfl⟩ | ⟨e, he, _, rfl⟩
  · exact identifies_congr (nodeKey_overlay _ e).symm (overlay_id _ e).symm (docker e he)
  · exact compose e he

/-- What a flattened source holds of its snapshots. -/
theorem flattenSnapshots_identified (ord : RangeOrder) {snaps : Snapshots}
    (follows : ∀ e ∈ snaps.entries, scheme.Follows e.2) :
    ∀ e ∈ (flattenSnapshots ord snaps).1.entries, scheme.Identifies e.2 := by
  intro e member
  rw [flattenSnapshots_eq] at member
  have listed := (mem_of_lookup_index nodeKey (AList.mem_lookup_iff.mpr member)).1
  obtain ⟨source, hs, node⟩ := List.mem_flatMap.mp listed
  exact follows source ((ord.mem_visit _ _).mp hs) e.2 node

theorem mergeSnapshots_closed (ord : Nat → RangeOrder) {declarativeSnaps runtimeSnaps : Snapshots}
    (declarative : ∀ e ∈ declarativeSnaps.entries, scheme.Follows e.2)
    (runtime : ∀ e ∈ runtimeSnaps.entries, scheme.Follows e.2) :
    Closed (mergeSnapshots ord declarativeSnaps runtimeSnaps) := by
  have keyed : ∀ (o : RangeOrder) (snaps : Snapshots), WellKeyed (flattenSnapshots o snaps).1 :=
    fun o snaps => by rw [flattenSnapshots_eq]; exact wellKeyed_index _
  let merged := mergeNodes (fun i => ord (i + 2)) (flattenSnapshots (ord 1) runtimeSnaps).1
    (flattenSnapshots (ord 0) declarativeSnaps).1
  let nodes := clearDanglingNetworkIDs merged
  let edges := mergeEdges (flattenSnapshots (ord 1) runtimeSnaps).2
    (flattenSnapshots (ord 0) declarativeSnaps).2 nodes
  have uniqueNodes : (nodes.map Node.id).Nodup := by
    rw [map_id_clearDanglingNetworkIDs]
    exact nodup_id_of_nodup_key (mergeNodes_nodup _ (keyed _ _) (keyed _ _))
      (mergeNodes_identified _ (flattenSnapshots_identified _ runtime)
        (flattenSnapshots_identified _ declarative))
  obtain ⟨uniqueEdges, grounded⟩ : (edges.map Edge.id).Nodup ∧
      ∀ e ∈ edges, Grounded (nodeIDs nodes) e := collected_mergeEdges _ _ nodes
  have sameIDs : nodeIDs (sortByID (ord 4) Node.id nodes) = nodeIDs nodes :=
    nodeIDs_congr (sortByID_perm _ _ _)
  refine ⟨sortByID_strict _ _ nodes uniqueNodes, sortByID_strict _ _ edges uniqueEdges,
    fun e member => ?_, fun n member set => ?_⟩
  · change Grounded (nodeIDs (sortByID (ord 4) Node.id nodes)) e
    rw [sameIDs]
    exact grounded e ((mem_sortByID _ _ _).mp member)
  · change n.networkID ∈ nodeIDs (sortByID (ord 4) Node.id nodes)
    rw [sameIDs, nodeIDs_clearDanglingNetworkIDs]
    obtain ⟨m, _, rfl⟩ := List.mem_map.mp ((mem_sortByID _ _ _).mp member)
    exact networkID_clearNetworkID set

end Identity

/-! ## Reachable states -/

/-- The IDs of the collectors: the type, a colon, the name. -/
def collectorIDs : IDScheme where
  types := ["container", "network", "volume", "service", "swarmnode"]
  ident type name := type ++ ":" ++ name
  inj := by
    have noColon : ∀ t ∈ ["container", "network", "volume", "service", "swarmnode"],
        ':' ∉ t.toList := by decide
    intro t ht u hu n m same
    have chars : t.toList ++ ':' :: n.toList = u.toList ++ ':' :: m.toList := by
      simpa using congrArg String.toList same
    obtain ⟨type, name⟩ := Text.split_at_first (noColon t ht) (noColon u hu) chars
    exact ⟨String.toList_inj.mp type, String.toList_inj.mp name⟩

/-- Every source's snapshot ends up on its side of the split. -/
theorem splitSources_lookup (ord : RangeOrder) (m : Manager) (name : String) :
    (m.splitSources ord).1.lookup name =
        (if m.isRuntime name then none else m.snapshots.lookup name) ∧
      (m.splitSources ord).2.lookup name =
        (if m.isRuntime name then m.snapshots.lookup name else none) := by
  have loop : ∀ (entries : List ((_ : String) × GraphSnapshot)) (acc : Snapshots × Snapshots),
      entries.NodupKeys →
      (entries.foldl m.splitSource acc).1.lookup name =
          (if m.isRuntime name then none else entries.dlookup name).or (acc.1.lookup name) ∧
        (entries.foldl m.splitSource acc).2.lookup name =
          (if m.isRuntime name then entries.dlookup name else none).or (acc.2.lookup name) := by
    intro entries
    induction entries with
    | nil => simp
    | cons entry rest ih =>
      intro acc unique
      obtain ⟨fresh, unique⟩ := List.nodupKeys_cons.mp unique
      obtain ⟨declarative, runtime⟩ := ih (m.splitSource acc entry) unique
      rw [List.foldl_cons, declarative, runtime]
      by_cases here : name = entry.1
      · subst here
        have later : rest.dlookup entry.1 = none := List.dlookup_eq_none.mpr fresh
        have first : (entry :: rest).dlookup entry.1 = some entry.2 := List.dlookup_cons_eq rest _ _
        cases side : m.isRuntime entry.1 <;> simp [Manager.splitSource, side, later, first]
      · have skip : (entry :: rest).dlookup name = rest.dlookup name :=
          List.dlookup_cons_ne rest entry here
        rw [skip]
        cases side : m.isRuntime entry.1 <;>
          simp [Manager.splitSource, side, AList.lookup_insert_ne here]
  have visited := ord.perm m.snapshots.entries
  have unique := (List.perm_nodupKeys visited).mpr m.snapshots.nodupKeys
  have found : (ord.visit m.snapshots.entries).dlookup name = m.snapshots.lookup name :=
    List.perm_dlookup name unique visited
  have result := loop (ord.visit m.snapshots.entries) (∅, ∅) unique
  simpa [found, Manager.splitSources] using result

@[simp] theorem handleUpdate_snapshots (ord : Nat → RangeOrder) (m : Manager) (name : String)
    (runtime : Bool) (update : StateUpdate) :
    (m.handleUpdate ord name runtime update).snapshots =
      (m.store name runtime update).snapshots := by
  unfold Manager.handleUpdate
  dsimp only
  split <;> rfl

@[simp] theorem handleUpdate_merged (ord : Nat → RangeOrder) (m : Manager) (name : String)
    (runtime : Bool) (update : StateUpdate) :
    (m.handleUpdate ord name runtime update).merged =
      (m.store name runtime update).remerge ord := by
  unfold Manager.handleUpdate
  dsimp only
  split <;> rfl

theorem receive_cases {m n : Manager} {id : Nat} (step : m.receive id = some n) :
    (∃ s ∈ m.subscribers, s.id = id ∧ s.buffer ≠ []) ∧
      n = { m with subscribers := m.subscribers.map fun s =>
        if s.id = id then
          { s with received := s.received ++ s.buffer.take 1, buffer := s.buffer.drop 1 }
        else s } := by
  unfold Manager.receive at step
  split at step
  next waiting =>
    cases step
    exact ⟨by simpa using waiting, rfl⟩
  · cases step

/-- What is stored follows the scheme and what was merged from it is closed. -/
structure Manager.Sound (scheme : IDScheme) (m : Manager) : Prop where
  follows : ∀ name s, m.snapshots.lookup name = some s → scheme.Follows s
  closed : Closed m.merged

/-- The nodes of the call's snapshot follow the scheme. -/
def Call.Follows (scheme : IDScheme) : Call → Prop
  | .handleUpdate _ _ _ update => ∀ s, update.snapshot = some s → scheme.Follows s
  | .handleStats _ | .subscribe | .unsubscribe _ | .receive _ => True

section Sound

variable {scheme : IDScheme}

theorem remerge_closed {m : Manager} (ord : Nat → RangeOrder)
    (follows : ∀ name s, m.snapshots.lookup name = some s → scheme.Follows s) :
    Closed (m.remerge ord) := by
  have sides := splitSources_lookup (ord 0) m
  have declarative : ∀ e ∈ (m.splitSources (ord 0)).1.entries, scheme.Follows e.2 := by
    intro e member
    have found := (sides e.1).1
    rw [AList.mem_lookup_iff.mpr member] at found
    split at found
    · cases found
    · exact follows e.1 e.2 found.symm
  have runtime : ∀ e ∈ (m.splitSources (ord 0)).2.entries, scheme.Follows e.2 := by
    intro e member
    have found := (sides e.1).2
    rw [AList.mem_lookup_iff.mpr member] at found
    split at found
    · exact follows e.1 e.2 found.symm
    · cases found
  exact mergeSnapshots_closed (fun i => ord (i + 1)) declarative runtime

theorem store_follows {m : Manager} {name : String} {runtime : Bool} {update : StateUpdate}
    (before : ∀ name s, m.snapshots.lookup name = some s → scheme.Follows s)
    (update_follows : ∀ s, update.snapshot = some s → scheme.Follows s) :
    ∀ k s, (m.store name runtime update).snapshots.lookup k = some s → scheme.Follows s := by
  intro k s found
  unfold Manager.store at found
  split at found
  next snapshot given =>
    by_cases here : k = name
    · subst here
      rw [AList.lookup_insert] at found
      cases found
      exact update_follows s given
    · rw [AList.lookup_insert_ne here] at found
      exact before k s found
  · exact before k s found

/-- One call keeps the manager sound. -/
theorem sound_step (m : Manager) (call : Call) (n : Manager) (before : m.Sound scheme)
    (follows : call.Follows scheme) (step : m.step call = some n) : n.Sound scheme := by
  cases call with
  | handleUpdate ord name runtime update =>
    cases step
    have stored : ∀ k s, (m.store name runtime update).snapshots.lookup k = some s →
        scheme.Follows s := store_follows before.follows follows
    exact ⟨by simpa using stored, by simpa using remerge_closed ord stored⟩
  | handleStats snap =>
    cases step
    exact ⟨before.follows, before.closed⟩
  | subscribe =>
    cases step
    exact ⟨before.follows, before.closed⟩
  | unsubscribe id =>
    cases step
    exact ⟨before.follows, before.closed⟩
  | receive id =>
    obtain ⟨_, rfl⟩ := receive_cases step
    exact ⟨before.follows, before.closed⟩

theorem sound_run {calls : List Call} {m n : Manager} (before : m.Sound scheme)
    (follows : ∀ call ∈ calls, call.Follows scheme)
    (run : exec Manager.step m calls = some n) : n.Sound scheme :=
  exec_invariant sound_step before (along_of_forall follows) run

end Sound

theorem sound_newManager (scheme : IDScheme) : newManager.Sound scheme :=
  ⟨fun name s found => by simp [newManager] at found, closed_empty⟩

/-- In every reachable state the merged graph is sorted, without duplicates and closed. -/
theorem current_closed (scheme : IDScheme) (calls : List Call) (m : Manager)
    (follows : ∀ call ∈ calls, call.Follows scheme)
    (run : exec Manager.step newManager calls = some m) : Closed m.current :=
  (sound_run (sound_newManager scheme) follows run).closed

/-- A container on a network that is gone, known to the runtime source alone. -/
def orphan : GraphSnapshot where
  nodes := [{ id := "container:web", type := "container", name := "web",
              networkID := "network:app" }]

theorem current_closed_orphan :
    Closed (newManager.handleUpdate (fun _ => .asWritten) "docker" true ⟨some orphan⟩).current := by
  refine current_closed collectorIDs
    [.handleUpdate (fun _ => .asWritten) "docker" true ⟨some orphan⟩] _ (fun call member => ?_) rfl
  obtain rfl := List.mem_singleton.mp member
  intro s given
  cases given
  intro n listed
  obtain rfl := List.mem_singleton.mp listed
  exact ⟨by decide, by decide⟩

end Dockgraph.State
