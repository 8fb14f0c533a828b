import Dockgraph.Frontend.ClientDelta
import Dockgraph.Frontend.DockGraph
import Dockgraph.Frontend.SnapshotFingerprint

/-!
# The hook follows its messages

The stream of snapshots and deltas says what the client's graph is. The hook follows it, up to
order, as long as each snapshot either differs from the snapshot before it in what the fingerprint
covers, or repeats the stream's graph: the fingerprint is that of the last snapshot, which deltas
do not change, and covers only some of the fields.
-/
namespace Dockgraph.Frontend

open Keyed

/-! ## Graphs up to order -/

/-- The same nodes and edges, every field included. -/
def Graph.Same (a b : Graph) : Prop := a.nodes.Perm b.nodes ∧ a.edges.Perm b.edges

instance (a b : Graph) : Decidable (a.Same b) := inferInstanceAs (Decidable (_ ∧ _))

def Graph.UniqueNodes (g : Graph) : Prop := (g.nodes.map DGNode.id).Nodup

instance (g : Graph) : Decidable g.UniqueNodes := inferInstanceAs (Decidable (List.Nodup _))

theorem Graph.Same.refl (g : Graph) : g.Same g := ⟨.refl _, .refl _⟩

theorem Graph.Same.trans {a b c : Graph} (first : a.Same b) (second : b.Same c) : a.Same c :=
  ⟨first.1.trans second.1, first.2.trans second.2⟩

theorem foldl_mergeUpdate_perm (updated : List DGNode) {xs ys : List DGNode} (perm : xs.Perm ys)
    (unique : (xs.map DGNode.id).Nodup) :
    (updated.foldl mergeUpdate xs).Perm (updated.foldl mergeUpdate ys) := by
  induction updated generalizing xs ys with
  | nil => exact perm
  | cons update rest ih =>
    have uniqueY : (ys.map DGNode.id).Nodup := (perm.map DGNode.id).nodup_iff.mp unique
    have step : (mergeUpdate xs update).Perm (mergeUpdate ys update) := by
      rw [mergeUpdate_eq_map unique, mergeUpdate_eq_map uniqueY]
      exact perm.map _
    exact ih step (by rwa [map_id_mergeUpdate])

/-- A delta acts on graphs up to order as long as it leaves the node IDs unique. -/
theorem applyDelta_same {a b : Graph} (same : a.Same b) (d : DeltaUpdate)
    (unique : (applyDelta a d).UniqueNodes) : (applyDelta a d).Same (applyDelta b d) := by
  rw [Graph.UniqueNodes, applyDelta_eq, map_id_foldl_mergeUpdate] at unique
  rw [applyDelta_eq, applyDelta_eq]
  exact ⟨foldl_mergeUpdate_perm _ ((same.1.filter _).append_right _) unique,
    (same.2.filter _).append_right _⟩

/-! ## Well-formed input -/

/-- A well-formed message of the current protocol version, or a change of the connection. -/
inductive Input
  | opened
  | snapshot (g : Graph)
  | delta (d : DeltaUpdate)
  | closed

def Input.event : Input → Event
  | .opened => .opened
  | .snapshot g =>
    .message (some ⟨"snapshot", protocolVersion, some (.snapshot (some g.nodes) (some g.edges))⟩)
  | .delta d => .message (some ⟨"delta", protocolVersion, some (.delta d)⟩)
  | .closed => .closed

/-- The hook after the inputs. -/
def hook (inputs : List Input) : DockGraph := inputs.foldl (fun s i => s.handle i.event) {}

/-- The stream's graph after one more input. -/
def received (g : Graph) : Input → Graph
  | .snapshot h => h
  | .delta d => applyDelta g d
  | .opened | .closed => g

/-- The snapshot last received after one more input. -/
def snapshotAfter (last : Option Graph) : Input → Option Graph
  | .snapshot g => some g
  | .delta _ | .opened | .closed => last

def lastSnapshot (inputs : List Input) : Option Graph := inputs.foldl snapshotAfter none

/-- The last snapshot received with every delta received after it applied in order. -/
def streamGraph (inputs : List Input) : Graph := inputs.foldl received {}

theorem hook_concat (inputs : List Input) (i : Input) :
    hook (inputs ++ [i]) = (hook inputs).handle i.event := by
  simp [hook, List.foldl_append]

theorem streamGraph_concat (inputs : List Input) (i : Input) :
    streamGraph (inputs ++ [i]) = received (streamGraph inputs) i := by
  simp [streamGraph, List.foldl_append]

theorem handle_snapshot (s : DockGraph) (g : Graph) :
    s.handle (Input.event (.snapshot g)) =
      { s with session := s.session.map fun _ => none }.applySnapshot g.nodes g.edges := rfl

theorem graph_applySnapshot (s : DockGraph) (g : Graph) :
    (s.applySnapshot g.nodes g.edges).graph =
      if snapshotFingerprint g.nodes g.edges = s.fingerprint then s.graph else g := by
  unfold DockGraph.applySnapshot
  dsimp only
  split <;> rfl

theorem handle_delta (s : DockGraph) (d : DeltaUpdate) :
    (s.handle (Input.event (.delta d))).graph = applyDelta s.graph d := rfl

theorem handle_connection (s : DockGraph) :
    (s.handle (Input.event .opened)).graph = s.graph ∧
      (s.handle (Input.event .closed)).graph = s.graph := ⟨rfl, rfl⟩

/-! ## Following the stream -/

theorem snapshotFingerprint_ne_empty (nodes : List DGNode) (edges : List DGEdge) :
    snapshotFingerprint nodes edges ≠ "" := by
  intro empty
  have chars := congrArg String.toList empty
  simp [snapshotFingerprint] at chars

theorem lastSnapshot_concat (inputs : List Input) (i : Input) :
    lastSnapshot (inputs ++ [i]) = snapshotAfter (lastSnapshot inputs) i := by
  simp [lastSnapshot, List.foldl_append]

theorem fingerprint_applySnapshot (s : DockGraph) (g : Graph) :
    (s.applySnapshot g.nodes g.edges).fingerprint = snapshotFingerprint g.nodes g.edges := by
  unfold DockGraph.applySnapshot
  dsimp only
  split
  next same => exact same.symm
  · rfl

/-- The hook remembers the fingerprint of the last snapshot, skipped or not. -/
theorem fingerprint_hook (inputs : List Input) : (hook inputs).fingerprint =
    ((lastSnapshot inputs).map fun g => snapshotFingerprint g.nodes g.edges).getD "" := by
  induction inputs using List.reverseRecOn with
  | nil => rfl
  | append_singleton inputs i ih =>
    rw [hook_concat, lastSnapshot_concat]
    cases i with
    | opened => exact ih
    | closed => exact ih
    | delta d => exact ih
    | snapshot g =>
      rw [handle_snapshot, fingerprint_applySnapshot]
      rfl

/-- After well-formed input the hook holds the stream's graph, given that each snapshot after the
first differs from the snapshot before it in what the fingerprint covers, or is the stream's graph. -/
theorem hook_follows_stream (inputs : List Input)
    (unique : ∀ before, before <+: inputs → (streamGraph before).UniqueNodes)
    (told : ∀ before last g, before ++ [.snapshot g] <+: inputs → lastSnapshot before = some last →
      last.ToldApart g ∨ (streamGraph before).Same g) :
    (hook inputs).graph.Same (streamGraph inputs) := by
  induction inputs using List.reverseRecOn with
  | nil => exact Graph.Same.refl _
  | append_singleton inputs i ih =>
    have earlier : ∀ {before}, before <+: inputs → before <+: inputs ++ [i] := fun h =>
      h.trans (List.prefix_append _ _)
    have before := ih (fun b h => unique b (earlier h)) (fun b last g h => told b last g (earlier h))
    have uniqueNow := unique _ (List.prefix_refl (inputs ++ [i]))
    rw [hook_concat, streamGraph_concat] at *
    cases i with
    | opened => rwa [(handle_connection _).1]
    | closed => rwa [(handle_connection _).2]
    | snapshot g =>
      rw [handle_snapshot, graph_applySnapshot]
      split
      next skipped =>
        -- A skipped snapshot has the fingerprint of the last one, so there was one.
        have skipped : snapshotFingerprint g.nodes g.edges = (hook inputs).fingerprint := skipped
        rw [fingerprint_hook] at skipped
        cases received : lastSnapshot inputs with
        | none =>
          rw [received] at skipped
          exact absurd skipped (snapshotFingerprint_ne_empty _ _)
        | some last =>
          rw [received] at skipped
          rcases told inputs last g (List.prefix_refl _) received with apart | same
          · exact absurd skipped.symm apart.fingerprint_ne
          · exact before.trans same
      · exact Graph.Same.refl g
    | delta d =>
      rw [handle_delta]
      -- Uniqueness is known of the stream's graph and passes to the hook's.
      have sameIDs := (applyDelta_same (a := streamGraph inputs)
        ⟨before.1.symm, before.2.symm⟩ d uniqueNow)
      exact ⟨sameIDs.1.symm, sameIDs.2.symm⟩

/-- A snapshot that repeats the last one is skipped, whatever deltas came in between. -/
theorem hook_repeated_snapshot (g : Graph) (deltas : List DeltaUpdate) :
    (hook (.snapshot g :: deltas.map .delta ++ [.closed, .opened, .snapshot g])).graph =
      deltas.foldl applyDelta g := by
  have first : ({} : DockGraph).handle (Input.event (.snapshot g)) =
      { ({} : DockGraph) with
        nodes := g.nodes, edges := g.edges, ready := true
        fingerprint := snapshotFingerprint g.nodes g.edges } := by
    rw [handle_snapshot, DockGraph.applySnapshot, if_neg (snapshotFingerprint_ne_empty _ _)]
    rfl
  have between : ∀ s : DockGraph,
      ((deltas.map Input.delta).foldl (fun s i => s.handle i.event) s).graph =
          deltas.foldl applyDelta s.graph ∧
        ((deltas.map Input.delta).foldl (fun s i => s.handle i.event) s).fingerprint =
          s.fingerprint := by
    induction deltas with
    | nil => exact fun s => ⟨rfl, rfl⟩
    | cons d rest ih =>
      intro s
      obtain ⟨graph, fingerprint⟩ := ih (s.handle (Input.event (.delta d)))
      exact ⟨graph, fingerprint⟩
  obtain ⟨graph, fingerprint⟩ := between (({} : DockGraph).handle (Input.event (.snapshot g)))
  rw [hook, List.cons_append, List.foldl_cons, List.foldl_append]
  simp only [List.foldl_cons, List.foldl_nil]
  rw [handle_snapshot, graph_applySnapshot, if_pos]
  · exact graph.trans (by rw [first]; rfl)
  · have kept : (({} : DockGraph).handle (Input.event (.snapshot g))).fingerprint =
        snapshotFingerprint g.nodes g.edges := by rw [first]
    exact (fingerprint.trans kept).symm

/-- One container. -/
def web (status : String) : Graph where
  nodes := [{ id := "container:web", type := "container", name := "web", status := some status }]

/-- A container, a service with one task and a cluster node. -/
def shop (task : String) : Graph where
  nodes := [
    { id := "container:web", type := "container", name := "web", image := some "nginx:1.27"
      status := some "running", ports := some [{ host := 8080, container := 80, protocol := some "tcp" }]
      networkId := some "network:front" },
    { id := "service:api", type := "service", name := "api"
      service := some {
        mode := some "replicated", replicas := { running := 1, desired := 1 }
        tasks := some [{ id := "t1", state := some task, desiredState := some "running" }] } },
    { id := "swarmnode:host", type := "swarmnode", name := "host", status := some "ready"
      swarmNode := some { id := "n1", role := "manager", availability := "active", state := "ready" } }]
  edges := [{ id := "e:dep:container:web:service:api", type := "depends_on", source := "container:web"
              target := "service:api" }]

theorem readable_shop : ∀ task ∈ ["running", "failed"], ∀ n ∈ (shop task).nodes, n.Readable := by
  intro task state n listed
  have told : Without ('/' :: ';' :: ':' :: nodeMarks) task :=
    (by decide : ∀ task ∈ ["running", "failed"], Without ('/' :: ';' :: ':' :: nodeMarks) task) task state
  simp only [shop, List.mem_cons, List.not_mem_nil, or_false] at listed
  rcases listed with rfl | rfl | rfl
  · refine ⟨by decide, by decide, by decide, .inr ⟨"front", by decide, rfl, by decide⟩, by decide, by decide, by decide,
      fun s none => absurd none (Option.not_mem_none s), fun s none => absurd none (Option.not_mem_none s)⟩
  · refine ⟨(by decide : "service:api".toList.count ':' = 1 ∧ Without nodeMarks "service:api"),
      (by decide : Without _ ""), (by decide : Without _ ""), .inl rfl, fun p none => absurd none List.not_mem_nil,
      (by decide : Without _ ""), (by decide : true = "service:".toList.isPrefixOf "service:api".toList), ?_, fun s none => absurd none (Option.not_mem_none s)⟩
    rintro s ⟨⟩
    refine ⟨(by decide : Without _ "replicated"), (by decide : Without _ ""), fun t listed => ?_⟩
    obtain rfl := List.mem_singleton.mp listed
    exact ⟨(by decide : Without _ "t1"), told, (by decide : Without _ "running"), (by decide : Without _ "")⟩
  · refine ⟨by decide, by decide, by decide, .inl rfl, by decide, by decide, by decide,
      fun s none => absurd none (Option.not_mem_none s), ?_⟩
    rintro s ⟨⟩
    unfold SwarmNodeInfo.Readable
    decide

/-- Another snapshot after a delta and a reconnect, and the same snapshot again after the next. -/
def reconnected : List Input :=
  [.snapshot (shop "running"), .delta { nodesUpdated := some (web "exited").nodes },
    .closed, .opened, .snapshot (shop "failed"), .closed, .opened, .snapshot (shop "failed")]

theorem hook_follows_stream_reconnected :
    (hook reconnected).graph.Same (streamGraph reconnected) := by
  refine hook_follows_stream reconnected (fun before pre => ?_) fun before last g pre received => ?_
  · have all : ∀ before ∈ reconnected.inits, (streamGraph before).UniqueNodes := by decide
    exact all before ((List.mem_inits _ _).mpr pre)
  · have listed := (List.mem_inits _ _).mpr pre
    simp only [reconnected, List.inits, List.map, List.mem_cons, List.not_mem_nil, or_false]
      at listed
    rcases listed with nil | first | delta | closed | opened | other | closed | opened | again
    · simp at nil
    · obtain rfl : before = [] := by simpa using congrArg List.dropLast first
      cases received
    · simpa using congrArg List.getLast? delta
    · simpa using congrArg List.getLast? closed
    · simpa using congrArg List.getLast? opened
    · -- the task has failed, which the fingerprint covers
      obtain rfl : g = shop "failed" := by simpa using congrArg List.getLast? other
      have before_eq : before = reconnected.take 4 := by simpa [reconnected] using congrArg List.dropLast other
      subst before_eq
      obtain rfl : shop "running" = last := Option.some.inj received
      refine .inl ⟨by decide, .inr ⟨readable_shop _ (by decide), readable_shop _ (by decide), ?_⟩⟩
      decide
    · simpa using congrArg List.getLast? closed
    · simpa using congrArg List.getLast? opened
    · -- nothing has come since
      obtain rfl : g = shop "failed" := by simpa using congrArg List.getLast? again
      have before_eq : before = reconnected.take 7 := by simpa [reconnected] using congrArg List.dropLast again
      subst before_eq
      exact .inr (Graph.Same.refl _)

/-- The container stops, the connection is lost, the container is started again: the snapshot
after the reconnect is the first one once more. -/
def restarted : List Input :=
  [.snapshot (web "running"), .delta { nodesUpdated := some (web "exited").nodes },
    .closed, .opened, .snapshot (web "running")]

theorem hook_misses_restart :
    ¬∀ inputs : List Input,
      (∀ before, before <+: inputs → (streamGraph before).UniqueNodes) →
      (hook inputs).graph.Same (streamGraph inputs) := by
  intro follows
  have unique : ∀ before, before <+: restarted → (streamGraph before).UniqueNodes := by
    intro before pre
    have all : ∀ before ∈ restarted.inits, (streamGraph before).UniqueNodes := by decide
    exact all before ((List.mem_inits _ _).mpr pre)
  have same := follows restarted unique
  have held : (hook restarted).graph = web "exited" :=
    hook_repeated_snapshot (web "running") [{ nodesUpdated := some (web "exited").nodes }]
  rw [held] at same
  exact absurd same (by decide)

end Dockgraph.Frontend
