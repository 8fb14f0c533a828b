import Dockgraph.Library.Suffix
import Dockgraph.State.MergedGraph

/-!
# Precedence of the merge

One runtime and one declarative source. The merged graph is described from the last snapshot
of each, whatever the order of their updates and of the map iterations.
-/
namespace Dockgraph.State

open Collector Keyed Transition

/-! ## What the merge of two graphs is -/

/-- The runtime node with the declarative source and, where it has none, the declarative
network. -/
def precedence (declarative : GraphSnapshot) (n : Node) : Node :=
  match declarative.nodes.find? fun c => nodeKey c = nodeKey n with
  | some c =>
    { n with
      source := if c.source ≠ "" then c.source else n.source
      networkID := if n.networkID = "" then c.networkID else n.networkID }
  | none => n

/-- Only the declarative source has the node. -/
def DeclarativeOnly (runtime : GraphSnapshot) (c : Node) : Prop :=
  ∀ n ∈ runtime.nodes, nodeKey n ≠ nodeKey c

structure Merges (runtime declarative merged : GraphSnapshot) : Prop where
  closed : Closed merged
  runtimeNodes : ∀ n ∈ runtime.nodes,
    clearNetworkID (nodeIDs merged.nodes) (precedence declarative n) ∈ merged.nodes
  declarativeNodes : ∀ c ∈ declarative.nodes, DeclarativeOnly runtime c →
    clearNetworkID (nodeIDs merged.nodes) c ∈ merged.nodes
  noOthers : ∀ x ∈ merged.nodes,
    (∃ n ∈ runtime.nodes, x = clearNetworkID (nodeIDs merged.nodes) (precedence declarative n)) ∨
    ∃ c ∈ declarative.nodes, DeclarativeOnly runtime c ∧
      x = clearNetworkID (nodeIDs merged.nodes) c
  edges : ∀ e, e ∈ merged.edges ↔ Grounded (nodeIDs merged.nodes) e ∧
    (e ∈ runtime.edges ∨ e ∈ declarative.edges ∧
      ∀ f ∈ runtime.edges, Grounded (nodeIDs merged.nodes) f → f.id ≠ e.id)

@[simp] theorem precedence_id (declarative : GraphSnapshot) (n : Node) :
    (precedence declarative n).id = n.id := by
  unfold precedence
  split <;> rfl

namespace Merges

variable {runtime declarative g h : GraphSnapshot}

theorem mem_nodeIDs (merges : Merges runtime declarative g) {k : String} :
    k ∈ nodeIDs g.nodes ↔ (∃ n ∈ runtime.nodes, n.id = k) ∨
      ∃ c ∈ declarative.nodes, DeclarativeOnly runtime c ∧ c.id = k := by
  simp only [nodeIDs, List.mem_toFinset, List.mem_map]
  constructor
  · rintro ⟨x, member, rfl⟩
    rcases merges.noOthers x member with ⟨n, hn, rfl⟩ | ⟨c, hc, only, rfl⟩
    · exact .inl ⟨n, hn, by simp⟩
    · exact .inr ⟨c, hc, only, by simp⟩
  · rintro (⟨n, hn, rfl⟩ | ⟨c, hc, only, rfl⟩)
    · exact ⟨_, merges.runtimeNodes n hn, by simp⟩
    · exact ⟨_, merges.declarativeNodes c hc only, by simp⟩

/-- The two graphs determine the merged one. -/
theorem unique (a : Merges runtime declarative g) (b : Merges runtime declarative h) : g = h := by
  have ids : nodeIDs g.nodes = nodeIDs h.nodes := by
    ext k
    rw [a.mem_nodeIDs, b.mem_nodeIDs]
  have nodes : ∀ {g h : GraphSnapshot}, Merges runtime declarative g →
      Merges runtime declarative h → nodeIDs g.nodes = nodeIDs h.nodes →
      ∀ x ∈ g.nodes, x ∈ h.nodes := by
    intro g h a b ids x member
    rcases a.noOthers x member with ⟨n, hn, rfl⟩ | ⟨c, hc, only, rfl⟩
    · exact ids ▸ b.runtimeNodes n hn
    · exact ids ▸ b.declarativeNodes c hc only
  have sameNodes : g.nodes = h.nodes := Suffix.eq_of_mem_iff a.closed.nodes b.closed.nodes
    fun x => ⟨nodes a b ids x, nodes b a ids.symm x⟩
  have sameEdges : g.edges = h.edges := Suffix.eq_of_mem_iff a.closed.edges b.closed.edges
    fun e => by rw [a.edges, b.edges, ids]
  obtain ⟨gn, ge⟩ := g
  obtain ⟨hn, he⟩ := h
  cases sameNodes
  cases sameEdges
  rfl

end Merges

/-! ## The merge of two single sources -/

/-- Only `name` may have a snapshot, and this is it. -/
def Single (snaps : Snapshots) (name : String) (s : GraphSnapshot) : Prop :=
  (∀ k, k ≠ name → snaps.lookup k = none) ∧ (snaps.lookup name).getD {} = s

theorem entries_of_single {snaps : Snapshots} {name : String} {s : GraphSnapshot}
    (single : Single snaps name s) :
    (snaps.entries = [] ∧ s = {}) ∨ snaps.entries = [⟨name, s⟩] := by
  obtain ⟨others, this⟩ := single
  have keyed : ∀ e ∈ snaps.entries, e.1 = name := by
    intro e member
    by_contra other
    have found : snaps.lookup e.1 = some e.2 := AList.mem_lookup_iff.mpr member
    rw [others e.1 other] at found
    cases found
  have unique := snaps.nodupKeys
  cases listed : snaps.entries with
  | nil =>
    have absent : snaps.lookup name = none := by simp [AList.lookup, listed]
    rw [absent] at this
    exact .inl ⟨rfl, this.symm⟩
  | cons e rest =>
    have here : e.1 = name := keyed e (by simp [listed])
    have alone : rest = [] := by
      -- A second entry would have the same key.
      cases rest with
      | nil => rfl
      | cons f rest =>
        have there : f.1 = name := keyed f (by simp [listed])
        rw [listed] at unique
        simp [List.nodupKeys_cons, here, there] at unique
    have found : snaps.lookup name = some e.2 := by
      rw [← here]
      exact AList.mem_lookup_iff.mpr (by simp [listed])
    rw [found] at this
    obtain rfl : e.2 = s := this
    right
    rw [alone, ← here]

theorem flattenSnapshots_single (ord : RangeOrder) {snaps : Snapshots} {name : String}
    {s : GraphSnapshot} (single : Single snaps name s) :
    flattenSnapshots ord snaps = (index nodeKey s.nodes, s.edges) := by
  rw [flattenSnapshots_eq]
  have visited := ord.perm snaps.entries
  rcases entries_of_single single with ⟨listed, rfl⟩ | listed
  · rw [listed, List.perm_nil] at visited
    simp [listed, visited]
  · rw [listed, List.perm_singleton] at visited
    simp [listed, visited]

theorem foldl_addEdge {ids : Finset String} {edges : List Edge}
    (unique : (edges.map Edge.id).Nodup) (acc : List Edge × Finset String) :
    (edges.foldl (addEdge ids) acc) =
      (acc.1 ++ edges.filter (fun e => Grounded ids e ∧ e.id ∉ acc.2),
        acc.2 ∪ ((edges.filter fun e => Grounded ids e ∧ e.id ∉ acc.2).map Edge.id).toFinset) := by
  induction edges generalizing acc with
  | nil => simp
  | cons e rest ih =>
    obtain ⟨fresh, unique⟩ := List.nodup_cons.mp unique
    rw [List.foldl_cons, ih unique]
    by_cases kept : Grounded ids e ∧ e.id ∉ acc.2
    · -- No later edge has the ID that `e` adds to the set.
      have step : addEdge ids acc e = (acc.1 ++ [e], insert e.id acc.2) := by
        obtain ⟨⟨source, target⟩, unseen⟩ := kept
        simp [addEdge, source, target, unseen]
      have later : rest.filter (fun f => Grounded ids f ∧ f.id ∉ insert e.id acc.2) =
          rest.filter (fun f => Grounded ids f ∧ f.id ∉ acc.2) := by
        refine List.filter_congr fun f member => ?_
        have other : f.id ≠ e.id := fun same => fresh (same ▸ List.mem_map_of_mem member)
        simp [other]
      simp only [step, later, List.filter_cons, kept]
      simp [Finset.insert_union]
    · have step : addEdge ids acc e = acc := by
        simp only [Grounded, not_and, not_not] at kept
        unfold addEdge
        split
        · rfl
        next added =>
          simp only [not_or, not_not] at added
          exact absurd (kept added.2) added.1
      rw [step, List.filter_cons_of_neg (by simpa using kept)]

section Pair

variable {runtime declarative : GraphSnapshot}
variable (uniqueR : (runtime.nodes.map nodeKey).Nodup)
variable (uniqueD : (declarative.nodes.map nodeKey).Nodup)

include uniqueD in
theorem overlay_index (e : (_ : NodeKey) × Node) (keyed : nodeKey e.2 = e.1) :
    overlay (index nodeKey declarative.nodes) e = precedence declarative e.2 := by
  have found : (index nodeKey declarative.nodes).lookup e.1 =
      declarative.nodes.find? fun c => nodeKey c = nodeKey e.2 := by
    ext c
    rw [lookup_index nodeKey uniqueD, find?_key_eq_some nodeKey uniqueD, keyed]
  unfold overlay precedence
  rw [found]
  cases declarative.nodes.find? fun c => nodeKey c = nodeKey e.2 with
  | none => rfl
  | some c => exact backfill_eq e.2 c

include uniqueR uniqueD

theorem mem_mergeNodes_pair (ord : Nat → RangeOrder) {x : Node} :
    x ∈ mergeNodes ord (index nodeKey runtime.nodes) (index nodeKey declarative.nodes) ↔
      (∃ n ∈ runtime.nodes, precedence declarative n = x) ∨
      (x ∈ declarative.nodes ∧ DeclarativeOnly runtime x) := by
  have listed : ∀ {nodes : List Node}, (nodes.map nodeKey).Nodup → ∀ e : (_ : NodeKey) × Node,
      e ∈ (index nodeKey nodes).entries ↔ e.2 ∈ nodes ∧ nodeKey e.2 = e.1 := by
    intro nodes unique e
    rw [← AList.mem_lookup_iff, Option.mem_def, lookup_index nodeKey unique]
  rw [mem_mergeNodes]
  simp only [listed uniqueR, listed uniqueD, mem_index]
  refine or_congr ⟨?_, ?_⟩ ⟨?_, ?_⟩
  · rintro ⟨e, ⟨member, keyed⟩, rfl⟩
    exact ⟨e.2, member, (overlay_index uniqueD e keyed).symm⟩
  · rintro ⟨n, member, rfl⟩
    exact ⟨⟨nodeKey n, n⟩, ⟨member, rfl⟩, overlay_index uniqueD ⟨nodeKey n, n⟩ rfl⟩
  · rintro ⟨e, ⟨member, keyed⟩, absent, rfl⟩
    exact ⟨member, fun n hn same => absent ⟨n, hn, same.trans keyed⟩⟩
  · rintro ⟨member, only⟩
    exact ⟨⟨nodeKey x, x⟩, ⟨member, rfl⟩, fun ⟨n, hn, same⟩ => only n hn same, rfl⟩

end Pair

theorem mem_mergeEdges_pair {runtimeEdges declarativeEdges : List Edge} {nodes : List Node}
    (uniqueR : (runtimeEdges.map Edge.id).Nodup) (uniqueD : (declarativeEdges.map Edge.id).Nodup)
    {e : Edge} :
    e ∈ mergeEdges runtimeEdges declarativeEdges nodes ↔ Grounded (nodeIDs nodes) e ∧
      (e ∈ runtimeEdges ∨ e ∈ declarativeEdges ∧
        ∀ f ∈ runtimeEdges, Grounded (nodeIDs nodes) f → f.id ≠ e.id) := by
  simp only [mergeEdges, foldl_addEdge uniqueR, foldl_addEdge uniqueD, List.nil_append,
    List.mem_append, List.mem_filter, Finset.notMem_empty, not_false_eq_true, and_true,
    decide_eq_true_eq, Finset.empty_union, List.mem_toFinset, List.mem_map, not_exists, not_and]
  constructor
  · rintro (⟨member, grounded⟩ | ⟨member, grounded, fresh⟩)
    · exact ⟨grounded, .inl member⟩
    · exact ⟨grounded, .inr ⟨member, fun f hf gf => fresh f ⟨hf, gf⟩⟩⟩
  · rintro ⟨grounded, member | ⟨member, fresh⟩⟩
    · exact .inl ⟨member, grounded⟩
    · exact .inr ⟨member, grounded, fun f hf => fresh f hf.1 hf.2⟩

theorem mergeSnapshots_merges (ord : Nat → RangeOrder) {scheme : IDScheme}
    {declarativeSnaps runtimeSnaps : Snapshots} {docker compose : String}
    {runtime declarative : GraphSnapshot}
    (singleR : Single runtimeSnaps docker runtime)
    (singleD : Single declarativeSnaps compose declarative)
    (followsR : scheme.Follows runtime) (followsD : scheme.Follows declarative)
    (uniqueR : (runtime.nodes.map nodeKey).Nodup)
    (uniqueD : (declarative.nodes.map nodeKey).Nodup)
    (edgesR : (runtime.edges.map Edge.id).Nodup) (edgesD : (declarative.edges.map Edge.id).Nodup) :
    Merges runtime declarative (mergeSnapshots ord declarativeSnaps runtimeSnaps) := by
  have follows : ∀ {snaps : Snapshots} {name : String} {s : GraphSnapshot},
      Single snaps name s → scheme.Follows s → ∀ e ∈ snaps.entries, scheme.Follows e.2 := by
    intro snaps name s single follows e member
    rcases entries_of_single single with ⟨listed, _⟩ | listed
    · simp [listed] at member
    · rw [listed] at member
      obtain rfl := List.mem_singleton.mp member
      exact follows
  have closed := mergeSnapshots_closed ord (follows singleD followsD) (follows singleR followsR)
  let merged := mergeNodes (fun i => ord (i + 2)) (index nodeKey runtime.nodes)
    (index nodeKey declarative.nodes)
  have result : mergeSnapshots ord declarativeSnaps runtimeSnaps =
      { nodes := sortByID (ord 4) Node.id (clearDanglingNetworkIDs merged)
        edges := sortByID (ord 5) Edge.id
          (mergeEdges runtime.edges declarative.edges (clearDanglingNetworkIDs merged)) } := by
    simp only [mergeSnapshots, flattenSnapshots_single _ singleD, flattenSnapshots_single _ singleR,
      merged]
  rw [result] at closed ⊢
  have ids : nodeIDs (sortByID (ord 4) Node.id (clearDanglingNetworkIDs merged)) =
      nodeIDs merged := by
    rw [nodeIDs_congr (sortByID_perm _ _ _), nodeIDs_clearDanglingNetworkIDs]
  have member : ∀ x, x ∈ sortByID (ord 4) Node.id (clearDanglingNetworkIDs merged) ↔
      ∃ n ∈ merged, clearNetworkID (nodeIDs merged) n = x := by
    intro x
    rw [mem_sortByID, clearDanglingNetworkIDs_eq, List.mem_map]
  have inMerged : ∀ n, n ∈ merged ↔ (∃ r ∈ runtime.nodes, precedence declarative r = n) ∨
      (n ∈ declarative.nodes ∧ DeclarativeOnly runtime n) := fun n =>
    mem_mergeNodes_pair uniqueR uniqueD _
  refine ⟨closed, fun n hn => ?_, fun c hc only => ?_, fun x hx => ?_, fun e => ?_⟩
  · exact (member _).mpr ⟨_, (inMerged _).mpr (.inl ⟨n, hn, rfl⟩), by rw [ids]⟩
  · exact (member _).mpr ⟨c, (inMerged c).mpr (.inr ⟨hc, only⟩), by rw [ids]⟩
  · obtain ⟨n, hn, rfl⟩ := (member x).mp hx
    rcases (inMerged n).mp hn with ⟨r, hr, rfl⟩ | ⟨hc, only⟩
    · exact .inl ⟨r, hr, by rw [ids]⟩
    · exact .inr ⟨n, hc, only, by rw [ids]⟩
  · change e ∈ sortByID (ord 5) Edge.id _ ↔ _
    rw [mem_sortByID, mem_mergeEdges_pair edgesR edgesD, nodeIDs_clearDanglingNetworkIDs, ids]

/-! ## Runs with two sources -/

/-- An update of the runtime source `docker` or of the declarative source `compose`, or a call
that is no update. -/
def Call.OfPair (docker compose : String) : Call → Prop
  | .handleUpdate _ name runtime _ =>
    name = docker ∧ runtime = true ∨ name = compose ∧ runtime = false
  | .handleStats _ | .subscribe | .unsubscribe _ | .receive _ => True

/-- The last snapshot of a source, given the one before the call. -/
def lastSnapshot (source : String) (last : Option GraphSnapshot) : Call → Option GraphSnapshot
  | .handleUpdate _ name _ update => if name = source then update.snapshot.or last else last
  | .handleStats _ | .subscribe | .unsubscribe _ | .receive _ => last

/-- What the manager stores of the two sources, and that the merged graph was built from it. -/
structure PairState (docker compose : String) (runtime declarative : Option GraphSnapshot)
    (m : Manager) : Prop where
  stored : m.snapshots.lookup docker = runtime
  composeStored : m.snapshots.lookup compose = declarative
  others : ∀ k, k ≠ docker → k ≠ compose → m.snapshots.lookup k = none
  dockerSide : runtime ≠ none → m.isRuntime docker = true
  composeSide : m.isRuntime compose = false
  merged : ∃ ord declarativeSnaps runtimeSnaps,
    Single declarativeSnaps compose (declarative.getD {}) ∧
    Single runtimeSnaps docker (runtime.getD {}) ∧
    m.merged = mergeSnapshots ord declarativeSnaps runtimeSnaps

theorem lookup_store (m : Manager) (name : String) (runtime : Bool) (update : StateUpdate)
    (k : String) :
    (m.store name runtime update).snapshots.lookup k =
      if name = k then update.snapshot.or (m.snapshots.lookup k) else m.snapshots.lookup k := by
  unfold Manager.store
  cases update.snapshot with
  | none => simp
  | some s =>
    by_cases here : name = k
    · subst here
      simp
    · simp [here, AList.lookup_insert_ne (Ne.symm here)]

theorem isRuntime_store (m : Manager) (name : String) (runtime : Bool) (update : StateUpdate)
    (k : String) :
    (m.store name runtime update).isRuntime k =
      if name = k ∧ update.snapshot.isSome then runtime else m.isRuntime k := by
  unfold Manager.store Manager.isRuntime
  cases update.snapshot with
  | none => simp
  | some s =>
    by_cases here : name = k
    · subst here
      simp
    · simp [here, AList.lookup_insert_ne (Ne.symm here)]

@[simp] theorem isRuntime_handleUpdate (ord : Nat → RangeOrder) (m : Manager) (name : String)
    (runtime : Bool) (update : StateUpdate) (k : String) :
    (m.handleUpdate ord name runtime update).isRuntime k =
      (m.store name runtime update).isRuntime k := by
  unfold Manager.handleUpdate
  dsimp only
  split <;> rfl

section Run

variable {docker compose : String} {runtime declarative : Option GraphSnapshot}

/-- The two sides of the split hold the two snapshots. -/
theorem splitSources_single {m : Manager} (ord : RangeOrder) (distinct : docker ≠ compose)
    (stored : m.snapshots.lookup docker = runtime)
    (composeStored : m.snapshots.lookup compose = declarative)
    (others : ∀ k, k ≠ docker → k ≠ compose → m.snapshots.lookup k = none)
    (dockerSide : runtime ≠ none → m.isRuntime docker = true)
    (composeSide : m.isRuntime compose = false) :
    Single (m.splitSources ord).1 compose (declarative.getD {}) ∧
      Single (m.splitSources ord).2 docker (runtime.getD {}) := by
  have sides := splitSources_lookup ord m
  refine ⟨⟨fun k other => ?_, ?_⟩, fun k other => ?_, ?_⟩
  · rw [(sides k).1]
    by_cases here : k = docker
    · subst here
      cases runtime with
      | none => simp [stored]
      | some s => simp [dockerSide]
    · simp [others k here other]
  · rw [(sides compose).1, composeSide, composeStored]
    rfl
  · rw [(sides k).2]
    by_cases here : k = compose
    · subst here
      simp [composeSide]
    · simp [others k other here]
  · rw [(sides docker).2, stored]
    cases runtime with
    | none => simp
    | some s => simp [dockerSide]

theorem pairState_step (distinct : docker ≠ compose) {m n : Manager} {call : Call}
    (before : PairState docker compose runtime declarative m) (pair : call.OfPair docker compose)
    (step : m.step call = some n) :
    PairState docker compose (lastSnapshot docker runtime call)
      (lastSnapshot compose declarative call) n := by
  cases call with
  | handleUpdate ord name side update =>
    cases step
    have stored : (m.store name side update).snapshots.lookup docker =
        lastSnapshot docker runtime (.handleUpdate ord name side update) := by
      rw [lookup_store, before.stored, lastSnapshot]
    have composeStored : (m.store name side update).snapshots.lookup compose =
        lastSnapshot compose declarative (.handleUpdate ord name side update) := by
      rw [lookup_store, before.composeStored, lastSnapshot]
    have others : ∀ k, k ≠ docker → k ≠ compose →
        (m.store name side update).snapshots.lookup k = none := by
      intro k nd nc
      have elsewhere : name ≠ k := by
        rcases pair with ⟨rfl, _⟩ | ⟨rfl, _⟩
        · exact nd.symm
        · exact nc.symm
      rw [lookup_store, if_neg elsewhere, before.others k nd nc]
    have dockerSide : lastSnapshot docker runtime (.handleUpdate ord name side update) ≠ none →
        (m.store name side update).isRuntime docker = true := by
      intro known
      rw [isRuntime_store]
      rcases pair with ⟨rfl, rfl⟩ | ⟨rfl, rfl⟩
      · split
        · rfl
        next silent =>
          have nothing : update.snapshot = none := by simpa using silent
          exact before.dockerSide (by simpa [lastSnapshot, nothing] using known)
      · rw [if_neg fun here => distinct here.1.symm]
        exact before.dockerSide (by simpa [lastSnapshot, distinct.symm] using known)
    have composeSide : (m.store name side update).isRuntime compose = false := by
      rw [isRuntime_store]
      rcases pair with ⟨rfl, rfl⟩ | ⟨rfl, rfl⟩
      · rw [if_neg fun here => distinct here.1, before.composeSide]
      · rw [before.composeSide, ite_self]
    obtain ⟨singleD, singleR⟩ := splitSources_single (ord 0) distinct stored composeStored others
      dockerSide composeSide
    exact ⟨by simpa using stored, by simpa using composeStored, by simpa using others,
      by simpa using dockerSide, by simpa using composeSide,
      fun i => ord (i + 1), _, _, singleD, singleR, handleUpdate_merged ord m name side update⟩
  | handleStats snap =>
    cases step
    exact { before with }
  | subscribe =>
    cases step
    exact { before with }
  | unsubscribe id =>
    cases step
    exact { before with }
  | receive id =>
    obtain ⟨_, rfl⟩ := receive_cases step
    exact { before with }

theorem pairState_run (distinct : docker ≠ compose) {calls : List Call} {m n : Manager}
    (before : PairState docker compose runtime declarative m)
    (pair : ∀ call ∈ calls, call.OfPair docker compose)
    (run : exec Manager.step m calls = some n) :
    PairState docker compose (calls.foldl (lastSnapshot docker) runtime)
      (calls.foldl (lastSnapshot compose) declarative) n := by
  induction calls generalizing m runtime declarative with
  | nil =>
    cases run
    exact before
  | cons call rest ih =>
    obtain ⟨u, first, run⟩ := exec_cons.mp run
    have after := pairState_step distinct before (pair call List.mem_cons_self) first
    exact ih after (fun c member => pair c (List.mem_cons_of_mem _ member)) run

end Run

theorem pairState_newManager (docker compose : String) :
    PairState docker compose none none newManager where
  stored := rfl
  composeStored := rfl
  others := fun _ _ _ => rfl
  dockerSide := fun absurd => (absurd rfl).elim
  composeSide := rfl
  merged := ⟨fun _ => .asWritten, ∅, ∅, ⟨fun _ _ => rfl, rfl⟩, ⟨fun _ _ => rfl, rfl⟩, rfl⟩

/-- After any interleaving of the updates of the two sources the merged graph is the merge of the
last snapshot of each, and every other run with these last snapshots has the same. -/
theorem current_merges (docker compose : String) (distinct : docker ≠ compose)
    (scheme : IDScheme) (calls : List Call) (m : Manager)
    (pair : ∀ call ∈ calls, call.OfPair docker compose)
    (run : exec Manager.step newManager calls = some m) {runtime declarative : GraphSnapshot}
    (lastR : (calls.foldl (lastSnapshot docker) none).getD {} = runtime)
    (lastD : (calls.foldl (lastSnapshot compose) none).getD {} = declarative)
    (followsR : scheme.Follows runtime) (followsD : scheme.Follows declarative)
    (uniqueR : (runtime.nodes.map nodeKey).Nodup)
    (uniqueD : (declarative.nodes.map nodeKey).Nodup)
    (edgesR : (runtime.edges.map Edge.id).Nodup) (edgesD : (declarative.edges.map Edge.id).Nodup) :
    Merges runtime declarative m.current ∧
      ∀ (others : List Call) (n : Manager), (∀ call ∈ others, call.OfPair docker compose) →
        exec Manager.step newManager others = some n →
        (others.foldl (lastSnapshot docker) none).getD {} = runtime →
        (others.foldl (lastSnapshot compose) none).getD {} = declarative →
        n.current = m.current := by
  have merges : ∀ (calls : List Call) (m : Manager),
      (∀ call ∈ calls, call.OfPair docker compose) →
      exec Manager.step newManager calls = some m →
      (calls.foldl (lastSnapshot docker) none).getD {} = runtime →
      (calls.foldl (lastSnapshot compose) none).getD {} = declarative →
      Merges runtime declarative m.current := by
    intro calls m pair run lastR lastD
    have state := pairState_run distinct (pairState_newManager docker compose) pair run
    obtain ⟨ord, declarativeSnaps, runtimeSnaps, singleD, singleR, merged⟩ := state.merged
    rw [lastR] at singleR
    rw [lastD] at singleD
    rw [Manager.current, merged]
    exact mergeSnapshots_merges ord singleR singleD followsR followsD uniqueR uniqueD edgesR edgesD
  refine ⟨merges calls m pair run lastR lastD, fun others n pairO runO lastRO lastDO => ?_⟩
  exact (merges others n pairO runO lastRO lastDO).unique (merges calls m pair run lastR lastD)

/-- A container of a compose file that runs, and the network the file gives it. -/
def composeFile : GraphSnapshot where
  nodes := [{ id := "container:web", type := "container", name := "web", status := "not_running",
              source := "compose.yml", networkID := "network:app" },
            { id := "network:app", type := "network", name := "app" }]

def running : GraphSnapshot where
  nodes := [{ id := "container:web", type := "container", name := "web", status := "running" }]

theorem current_merges_running :
    Merges running composeFile
      ((newManager.handleUpdate (fun _ => .asWritten) "compose" false ⟨some composeFile⟩).handleUpdate
        (fun _ => .backwards) "docker" true ⟨some running⟩).current := by
  refine (current_merges "docker" "compose" (by decide) collectorIDs
    [.handleUpdate (fun _ => .asWritten) "compose" false ⟨some composeFile⟩,
      .handleUpdate (fun _ => .backwards) "docker" true ⟨some running⟩] _ ?_ rfl rfl rfl
    ?_ ?_ (by decide) (by decide) (by decide) (by decide)).1
  · intro call member
    rcases List.mem_cons.mp member with rfl | member
    · exact .inr ⟨rfl, rfl⟩
    · obtain rfl := List.mem_singleton.mp member
      exact .inl ⟨rfl, rfl⟩
  · intro n listed
    obtain rfl := List.mem_singleton.mp listed
    exact ⟨by decide, by decide⟩
  · intro n listed
    rcases List.mem_cons.mp listed with rfl | listed
    · exact ⟨by decide, by decide⟩
    · obtain rfl := List.mem_singleton.mp listed
      exact ⟨by decide, by decide⟩

end Dockgraph.State
