import Dockgraph.Frontend.SwarmNodeJson
import Mathlib.Data.Multiset.MapFold

/-!
# What a fingerprint tells

The fingerprint of a snapshot is one text for its nodes and its edges. Where the names are free of the marks that
separate them, the text is read back: it tells the ID of every edge and, of every node, the fields it covers.
-/
namespace Dockgraph.Frontend

open CodeUnits

/-! ## The covered fields -/

/-- An end that is absent and the end 0 are one: the port is no range. -/
structure PortCover where
  host : Int
  hostEnd : Int
  container : Int
  containerEnd : Int
  protocol : String
  deriving DecidableEq, Inhabited

structure TaskCover where
  id : String
  state : String
  desiredState : String
  nodeId : String
  deriving DecidableEq

/-- The tasks have no order. -/
structure ServiceCover where
  running : Int
  desired : Int
  mode : String
  updateStatus : String
  tasks : Multiset TaskCover
  deriving DecidableEq

/-- What the fingerprint covers of a node; an absent text and the empty one are one. -/
structure NodeCover where
  id : String
  status : String
  image : String
  networkId : String
  ports : List PortCover
  stack : String
  service : Option ServiceCover
  swarmNode : Option SwarmNodeInfo
  deriving DecidableEq

def PortMapping.cover (p : PortMapping) : PortCover where
  host := p.host
  hostEnd := p.hostEnd.getD 0
  container := p.container
  containerEnd := p.containerEnd.getD 0
  protocol := orEmpty p.protocol

def TaskInfo.cover (t : TaskInfo) : TaskCover where
  id := t.id
  state := orEmpty t.state
  desiredState := orEmpty t.desiredState
  nodeId := orEmpty t.nodeId

def ServiceInfo.cover (s : ServiceInfo) : ServiceCover where
  running := s.replicas.running
  desired := s.replicas.desired
  mode := orEmpty s.mode
  updateStatus := orEmpty s.updateStatus
  tasks := ((s.tasks.getD []).map TaskInfo.cover : List TaskCover)

def DGNode.cover (n : DGNode) : NodeCover where
  id := n.id
  status := orEmpty n.status
  image := orEmpty n.image
  networkId := orEmpty n.networkId
  ports := (n.ports.getD []).map PortMapping.cover
  stack := orEmpty n.stack
  service := n.service.map ServiceInfo.cover
  swarmNode := n.swarmNode

/-! ## Readable names -/

/-- The marks that end a node's text, or start its JSON. -/
def nodeMarks : List Char := [',', '\x7b']

structure TaskInfo.Readable (t : TaskInfo) : Prop where
  id : Without ('=' :: ';' :: ':' :: nodeMarks) t.id
  state : Without ('/' :: ';' :: ':' :: nodeMarks) (orEmpty t.state)
  desiredState : Without ('@' :: ';' :: ':' :: nodeMarks) (orEmpty t.desiredState)
  nodeId : Without (';' :: ':' :: nodeMarks) (orEmpty t.nodeId)

structure ServiceInfo.Readable (s : ServiceInfo) : Prop where
  mode : Without (':' :: nodeMarks) (orEmpty s.mode)
  updateStatus : Without (':' :: nodeMarks) (orEmpty s.updateStatus)
  tasks : ∀ t ∈ s.tasks.getD [], t.Readable

/-- IDs are of the form type:name, an image may have colons of its own, and services are services. -/
structure DGNode.Readable (n : DGNode) : Prop where
  id : n.id.toList.count ':' = 1 ∧ Without nodeMarks n.id
  status : Without (':' :: nodeMarks) (orEmpty n.status)
  image : Without nodeMarks (orEmpty n.image)
  networkId : orEmpty n.networkId = "" ∨
    ∃ name ≠ "", orEmpty n.networkId = "network:" ++ name ∧ Without (':' :: nodeMarks) name
  ports : ∀ p ∈ n.ports.getD [], Without (';' :: ':' :: nodeMarks) (orEmpty p.protocol)
  stack : Without (':' :: nodeMarks) (orEmpty n.stack)
  service : n.service.isSome = "service:".toList.isPrefixOf n.id.toList
  tasks : ∀ s ∈ n.service, s.Readable
  swarmNode : ∀ s ∈ n.swarmNode, s.Readable

/-! ## Texts that tell -/

/-- What the text tells of each is told of a collection by the collection of the texts. -/
theorem perm_map_of_told {α β γ : Type} {p : α → Prop} {text : α → β} {cover : α → γ}
    (told : ∀ a b, p a → p b → text a = text b → cover a = cover b) {xs ys : List α} (hx : ∀ x ∈ xs, p x)
    (hy : ∀ y ∈ ys, p y) (perm : (xs.map text).Perm (ys.map text)) : (xs.map cover).Perm (ys.map cover) := by
  classical
  let read (b : β) : Option γ := if known : ∃ a, p a ∧ text a = b then some (cover known.choose) else none
  have read_text (a : α) (ha : p a) : read (text a) = some (cover a) := by
    have known : ∃ a', p a' ∧ text a' = text a := ⟨a, ha, rfl⟩
    simp only [read, dif_pos known]
    exact congrArg some (told _ _ known.choose_spec.1 ha known.choose_spec.2)
  have read_map (zs : List α) (hz : ∀ z ∈ zs, p z) : (zs.map text).filterMap read = zs.map cover := by
    induction zs with
    | nil => rfl
    | cons z zs ih =>
      rw [List.map_cons, List.filterMap_cons_some (read_text z (hz z List.mem_cons_self)),
        ih fun z member => hz z (List.mem_cons_of_mem _ member), List.map_cons]
  rw [← read_map xs hx, ← read_map ys hy]
  exact perm.filterMap read

theorem toString_text (s : String) : toString s = s := rfl

/-! ## Ports -/

/-- The minus sign is nowhere but in front. -/
theorem exists_digits (n : Int) : ∃ c ds, (toString n).toList = c :: ds ∧ '-' ∉ ds := by
  have digits (k : Nat) : '-' ∉ Nat.toDigits 10 k := fun member =>
    absurd (Nat.isDigit_of_mem_toDigits (by decide) (by decide) member) (by decide)
  cases n with
  | ofNat k =>
    obtain ⟨c, ds, chars⟩ := List.exists_cons_of_ne_nil (Nat.toDigits_ne_nil (b := 10) (n := k))
    refine ⟨c, ds, by simpa [Int.repr] using chars, fun member => digits k ?_⟩
    rw [chars]
    exact List.mem_cons_of_mem c member
  | negSucc k => exact ⟨'-', Nat.toDigits 10 (k + 1), by simp [Int.repr], digits (k + 1)⟩

theorem portSpan_chars (start : Int) (last : Option Int) :
    (portSpan start last).toList = (toString start).toList ++
      if last.getD 0 = 0 then [] else '-' :: (toString (last.getD 0)).toList := by
  cases last with
  | none => simp [portSpan]
  | some e =>
    by_cases zero : e = 0
    · simp [portSpan, zero]
    · simp [portSpan, zero, toString_text]

theorem portSpan_read {start start' : Int} {last last' : Option Int}
    (same : portSpan start last = portSpan start' last') : start = start' ∧ last.getD 0 = last'.getD 0 := by
  have chars := congrArg String.toList same
  rw [portSpan_chars, portSpan_chars] at chars
  obtain ⟨c, ds, first, noSign⟩ := exists_digits start
  obtain ⟨c', ds', first', noSign'⟩ := exists_digits start'
  rw [first, first', List.cons_append, List.cons_append] at chars
  obtain ⟨rfl, chars'⟩ := List.cons.inj chars
  have span (e : Int) : ∀ u ∈ (if e = 0 then [] else '-' :: (toString e).toList).head?, u = '-' := by
    intro u member
    split at member
    · cases member
    · exact (Option.mem_some_iff.mp member).symm
  -- the first minus sign after the front is the span's
  obtain ⟨rfl, ends⟩ := Text.split_at_stop (fun x member (minus : x = '-') => noSign (minus ▸ member))
    (fun x member (minus : x = '-') => noSign' (minus ▸ member)) (span (last.getD 0)) (span (last'.getD 0)) chars'
  refine ⟨Text.toString_inj (String.toList_inj.mp (first.trans first'.symm)), ?_⟩
  split at ends
  next zero =>
    split at ends
    next zero' => rw [zero, zero']
    · cases ends
  · split at ends
    · cases ends
    · exact Text.toString_inj (String.toList_inj.mp (List.cons.inj ends).2)

theorem portSpan_digits {c : Char} {start : Int} {last : Option Int} (member : c ∈ (portSpan start last).toList) :
    c.isDigit ∨ c = '-' := by
  have printed (n : Int) := Text.forall_mem_toString (p := fun c => c.isDigit ∨ c = '-') (fun _ => .inl) (.inr rfl) n
  rw [portSpan_chars, List.mem_append] at member
  rcases member with first | later
  · exact printed start c first
  · split at later
    · cases later
    · rcases List.mem_cons.mp later with rfl | later
      · exact .inr rfl
      · exact printed _ c later

def portText (p : PortMapping) : String := s!"{hostPorts p}>{containerPorts p}/{orEmpty p.protocol}"

theorem portText_chars (p : PortMapping) :
    (portText p).toList = (hostPorts p).toList ++ '>' :: ((containerPorts p).toList ++ '/' :: (orEmpty p.protocol).toList) := by
  simp [portText, toString_text]

theorem portText_read {p p' : PortMapping} (same : portText p = portText p') : p.cover = p'.cover := by
  have chars := congrArg String.toList same
  rw [portText_chars, portText_chars] at chars
  have absent {c : Char} {start : Int} {last : Option Int} (other : (c.isDigit || c == '-') = false) :
      c ∉ (portSpan start last).toList := by
    intro member
    rcases portSpan_digits member with digit | minus
    · simp [digit] at other
    · simp [minus] at other
  obtain ⟨hosts, chars⟩ := Text.split_at_first (absent (by decide)) (absent (by decide)) chars
  obtain ⟨containers, protocols⟩ := Text.split_at_first (absent (by decide)) (absent (by decide)) chars
  obtain ⟨host, hostEnd⟩ := portSpan_read (String.toList_inj.mp hosts)
  obtain ⟨container, containerEnd⟩ := portSpan_read (String.toList_inj.mp containers)
  unfold PortMapping.cover
  rw [host, hostEnd, container, containerEnd, String.toList_inj.mp protocols]

theorem portText_without {p : PortMapping} (readable : Without (';' :: ':' :: nodeMarks) (orEmpty p.protocol)) :
    Without (';' :: ':' :: nodeMarks) (portText p) := by
  intro c member
  rw [portText_chars] at member
  have digits (printed : c.isDigit ∨ c = '-') : c ∉ ';' :: ':' :: nodeMarks := by
    rintro mark
    simp only [nodeMarks, List.mem_cons, List.not_mem_nil, or_false] at mark
    rcases mark with rfl | rfl | rfl | rfl <;> exact absurd printed (by decide)
  rcases List.mem_append.mp member with host | member
  · exact digits (portSpan_digits host)
  · rcases List.mem_cons.mp member with rfl | member
    · decide
    · rcases List.mem_append.mp member with container | member
      · exact digits (portSpan_digits container)
      · rcases List.mem_cons.mp member with rfl | protocol
        · decide
        · exact readable c protocol

def portsText (n : DGNode) : String := join ";" ((n.ports.getD []).map portText)

theorem portsText_without {n : DGNode} (readable : n.Readable) : Without (':' :: nodeMarks) (portsText n) := by
  apply without_join ';' (by decide)
  intro text listed
  obtain ⟨p, member, rfl⟩ := List.mem_map.mp listed
  exact (portText_without (readable.ports p member)).mono (List.subset_cons_self _ _)

theorem portText_ne_empty (p : PortMapping) : portText p ≠ "" := by
  intro empty
  have chars := portText_chars p
  rw [empty] at chars
  simp at chars

theorem portsText_read {n n' : DGNode} (readable : n.Readable) (readable' : n'.Readable)
    (same : portsText n = portsText n') :
    (n.ports.getD []).map PortMapping.cover = (n'.ports.getD []).map PortMapping.cover := by
  have parts {n : DGNode} (readable : n.Readable) :
      ∀ x ∈ (n.ports.getD []).map portText, x ≠ "" ∧ ';' ∉ x.toList := by
    intro text listed
    obtain ⟨p, member, rfl⟩ := List.mem_map.mp listed
    exact ⟨portText_ne_empty p, (portText_without (readable.ports p member)).not_mem List.mem_cons_self⟩
  have texts : (n.ports.getD []).map portText = (n'.ports.getD []).map portText :=
    join_inj (fun x listed => (parts readable x listed).1) (fun x listed => (parts readable' x listed).1)
      (fun x listed => (parts readable x listed).2) (fun x listed => (parts readable' x listed).2)
      (show CodeUnits.join ';' _ = CodeUnits.join ';' _ from same)
  have told : Function.FactorsThrough PortMapping.cover portText := fun _ _ same => portText_read same
  obtain ⟨read, covers⟩ := (Function.factorsThrough_iff (fun p : PortMapping => p.cover)).mp told
  have covers : PortMapping.cover = read ∘ portText := covers
  rw [covers, ← List.map_map, texts, List.map_map]

/-! ## Services -/

def taskText (t : TaskInfo) : String := s!"{t.id}={orEmpty t.state}/{orEmpty t.desiredState}@{orEmpty t.nodeId}"

theorem taskText_chars (t : TaskInfo) :
    (taskText t).toList = t.id.toList ++ '=' :: ((orEmpty t.state).toList ++ '/' ::
      ((orEmpty t.desiredState).toList ++ '@' :: (orEmpty t.nodeId).toList)) := by
  simp [taskText, toString_text]

theorem taskText_read {t t' : TaskInfo} (readable : t.Readable) (readable' : t'.Readable)
    (same : taskText t = taskText t') : t.cover = t'.cover := by
  have chars := congrArg String.toList same
  rw [taskText_chars, taskText_chars] at chars
  obtain ⟨ids, chars⟩ := Text.split_at_first (readable.id.not_mem List.mem_cons_self)
    (readable'.id.not_mem List.mem_cons_self) chars
  obtain ⟨states, chars⟩ := Text.split_at_first (readable.state.not_mem List.mem_cons_self)
    (readable'.state.not_mem List.mem_cons_self) chars
  obtain ⟨desired, nodes⟩ := Text.split_at_first (readable.desiredState.not_mem List.mem_cons_self)
    (readable'.desiredState.not_mem List.mem_cons_self) chars
  unfold TaskInfo.cover
  rw [String.toList_inj.mp ids, String.toList_inj.mp states, String.toList_inj.mp desired, String.toList_inj.mp nodes]

theorem taskText_without {t : TaskInfo} (readable : t.Readable) : Without (';' :: ':' :: nodeMarks) (taskText t) := by
  intro c member
  rw [taskText_chars] at member
  rcases List.mem_append.mp member with id | member
  · exact readable.id.mono (List.subset_cons_self _ _) c id
  · rcases List.mem_cons.mp member with rfl | member
    · decide
    · rcases List.mem_append.mp member with state | member
      · exact readable.state.mono (List.subset_cons_self _ _) c state
      · rcases List.mem_cons.mp member with rfl | member
        · decide
        · rcases List.mem_append.mp member with desired | member
          · exact readable.desiredState.mono (List.subset_cons_self _ _) c desired
          · rcases List.mem_cons.mp member with rfl | node
            · decide
            · exact readable.nodeId c node

theorem taskText_ne_empty (t : TaskInfo) : taskText t ≠ "" := by
  intro empty
  have chars := taskText_chars t
  rw [empty] at chars
  simp at chars

def tasksText (s : ServiceInfo) : String := join ";" (jsSort ((s.tasks.getD []).map taskText))

theorem jsSort_perm (xs : List String) : (jsSort xs).Perm xs := List.perm_insertionSort _ xs

theorem mem_tasks {s : ServiceInfo} {text : String} (listed : text ∈ jsSort ((s.tasks.getD []).map taskText)) :
    ∃ t ∈ s.tasks.getD [], taskText t = text := List.mem_map.mp ((jsSort_perm _).subset listed)

theorem tasksText_without {s : ServiceInfo} (readable : s.Readable) : Without (':' :: nodeMarks) (tasksText s) := by
  apply without_join ';' (by decide)
  intro text listed
  obtain ⟨t, member, rfl⟩ := mem_tasks listed
  exact (taskText_without (readable.tasks t member)).mono (List.subset_cons_self _ _)

theorem tasksText_read {s s' : ServiceInfo} (readable : s.Readable) (readable' : s'.Readable)
    (same : tasksText s = tasksText s') : s.cover.tasks = s'.cover.tasks := by
  have parts {s : ServiceInfo} (readable : s.Readable) :
      ∀ x ∈ jsSort ((s.tasks.getD []).map taskText), x ≠ "" ∧ ';' ∉ x.toList := by
    intro text listed
    obtain ⟨t, member, rfl⟩ := mem_tasks listed
    exact ⟨taskText_ne_empty t, (taskText_without (readable.tasks t member)).not_mem List.mem_cons_self⟩
  have sorted : jsSort ((s.tasks.getD []).map taskText) = jsSort ((s'.tasks.getD []).map taskText) :=
    join_inj (fun x listed => (parts readable x listed).1) (fun x listed => (parts readable' x listed).1)
      (fun x listed => (parts readable x listed).2) (fun x listed => (parts readable' x listed).2)
      (show CodeUnits.join ';' _ = CodeUnits.join ';' _ from same)
  have texts : ((s.tasks.getD []).map taskText).Perm ((s'.tasks.getD []).map taskText) :=
    (jsSort_perm _).symm.trans (sorted ▸ jsSort_perm _)
  exact Multiset.coe_eq_coe.mpr
    (perm_map_of_told (fun _ _ => taskText_read) readable.tasks readable'.tasks texts)

def replicasText (r : ReplicaCount) : String := s!"{r.running}/{r.desired}"

theorem replicasText_chars (r : ReplicaCount) :
    (replicasText r).toList = (toString r.running).toList ++ '/' :: (toString r.desired).toList := by
  simp [replicasText, toString_text]

theorem replicasText_read {r r' : ReplicaCount} (same : replicasText r = replicasText r') :
    r.running = r'.running ∧ r.desired = r'.desired := by
  have chars := congrArg String.toList same
  rw [replicasText_chars, replicasText_chars] at chars
  obtain ⟨running, desired⟩ := Text.split_at_first (not_mem_toString (by decide) (by decide) _)
    (not_mem_toString (by decide) (by decide) _) chars
  exact ⟨Text.toString_inj (String.toList_inj.mp running), Text.toString_inj (String.toList_inj.mp desired)⟩

theorem replicasText_without (r : ReplicaCount) : Without (':' :: nodeMarks) (replicasText r) := by
  intro c member
  rw [replicasText_chars] at member
  intro mark
  have other : c.isDigit = false ∧ c ≠ '-' ∧ c ≠ '/' := by
    simp only [nodeMarks, List.mem_cons, List.not_mem_nil, or_false] at mark
    rcases mark with rfl | rfl | rfl <;> decide
  rcases List.mem_append.mp member with running | member
  · exact not_mem_toString other.1 other.2.1 _ running
  · rcases List.mem_cons.mp member with slash | desired
    · exact other.2.2 slash
    · exact not_mem_toString other.1 other.2.1 _ desired

def serviceText (s : ServiceInfo) : String :=
  s!"{replicasText s.replicas}:{orEmpty s.mode}:{orEmpty s.updateStatus}:{tasksText s}"

theorem serviceKey_eq (n : DGNode) : serviceKey n = (n.service.map serviceText).getD "" := by
  unfold serviceKey serviceText replicasText
  cases n.service with
  | none => rfl
  | some s => rfl

theorem serviceText_chars (s : ServiceInfo) :
    (serviceText s).toList = (replicasText s.replicas).toList ++ ':' :: ((orEmpty s.mode).toList ++ ':' ::
      ((orEmpty s.updateStatus).toList ++ ':' :: (tasksText s).toList)) := by
  simp [serviceText, toString_text]

theorem split_serviceText {s : ServiceInfo} (readable : s.Readable) :
    Text.split ':' (serviceText s).toList = [(replicasText s.replicas).toList, (orEmpty s.mode).toList,
      (orEmpty s.updateStatus).toList, (tasksText s).toList] := by
  rw [serviceText_chars, Text.split_append ((replicasText_without _).not_mem List.mem_cons_self),
    Text.split_append (readable.mode.not_mem List.mem_cons_self),
    Text.split_append (readable.updateStatus.not_mem List.mem_cons_self),
    Text.split_of_not_mem ((tasksText_without readable).not_mem List.mem_cons_self)]

theorem serviceText_read {s s' : ServiceInfo} (readable : s.Readable) (readable' : s'.Readable)
    (same : Text.split ':' (serviceText s).toList = Text.split ':' (serviceText s').toList) : s.cover = s'.cover := by
  rw [split_serviceText readable, split_serviceText readable'] at same
  obtain ⟨replicas, mode, update, tasks⟩ : replicasText s.replicas = replicasText s'.replicas ∧
      orEmpty s.mode = orEmpty s'.mode ∧ orEmpty s.updateStatus = orEmpty s'.updateStatus ∧
        tasksText s = tasksText s' := by
    simpa only [List.cons.injEq, String.toList_inj, and_true] using same
  obtain ⟨running, desired⟩ := replicasText_read replicas
  rw [ServiceInfo.cover, ServiceInfo.cover, ServiceCover.mk.injEq]
  exact ⟨running, desired, mode, update, tasksText_read readable readable' tasks⟩

/-! ## Nodes -/

/-- The text of a node before its JSON. -/
def plainText (n : DGNode) : String :=
  s!"{n.id}:{orEmpty n.status}:{orEmpty n.image}:{orEmpty n.networkId}:{portsText n}:{orEmpty n.stack}:{serviceKey n}"

theorem nodeFingerprint_eq (n : DGNode) : nodeFingerprint n = plainText n ++ ":" ++ jsonSwarmNode n.swarmNode := rfl

theorem plainText_chars (n : DGNode) :
    (plainText n).toList = n.id.toList ++ ':' :: ((orEmpty n.status).toList ++ ':' :: ((orEmpty n.image).toList ++ ':' ::
      ((orEmpty n.networkId).toList ++ ':' :: ((portsText n).toList ++ ':' :: ((orEmpty n.stack).toList ++ ':' ::
        (serviceKey n).toList))))) := by
  simp [plainText, toString_text]

theorem serviceKey_without {n : DGNode} (readable : n.Readable) : Without nodeMarks (serviceKey n) := by
  rw [serviceKey_eq]
  cases set : n.service with
  | none => decide
  | some s =>
    have whole := readable.tasks s set
    intro c member
    have member : c ∈ (serviceText s).toList := member
    rw [serviceText_chars] at member
    simp only [List.mem_append, List.mem_cons] at member
    rcases member with replicas | rfl | mode | rfl | update | rfl | tasks
    · exact (replicasText_without _).mono (List.subset_cons_self _ _) c replicas
    · decide
    · exact whole.mode.mono (List.subset_cons_self _ _) c mode
    · decide
    · exact whole.updateStatus.mono (List.subset_cons_self _ _) c update
    · decide
    · exact (tasksText_without whole).mono (List.subset_cons_self _ _) c tasks

theorem networkId_without {n : DGNode} (readable : n.Readable) : Without nodeMarks (orEmpty n.networkId) := by
  rcases readable.networkId with none | ⟨name, -, prefixed, plain⟩
  · rw [none]
    decide
  · rw [prefixed]
    intro c member
    rw [String.toList_append, List.mem_append] at member
    rcases member with type | name
    · exact (by decide : Without nodeMarks "network:") c type
    · exact plain.mono (List.subset_cons_self _ _) c name

theorem plainText_without {n : DGNode} (readable : n.Readable) : Without nodeMarks (plainText n) := by
  intro c member
  rw [plainText_chars] at member
  simp only [List.mem_append, List.mem_cons] at member
  rcases member with id | rfl | status | rfl | image | rfl | network | rfl | ports | rfl | stack | rfl | service
  · exact readable.id.2 c id
  · decide
  · exact readable.status.mono (List.subset_cons_self _ _) c status
  · decide
  · exact readable.image c image
  · decide
  · exact networkId_without readable c network
  · decide
  · exact (portsText_without readable).mono (List.subset_cons_self _ _) c ports
  · decide
  · exact readable.stack.mono (List.subset_cons_self _ _) c stack
  · decide
  · exact serviceKey_without readable c service

/-- The fields between the colons; the image may have colons of its own. -/
theorem split_plainText {n : DGNode} (readable : n.Readable) :
    Text.split ':' (plainText n).toList = Text.split ':' n.id.toList ++ ((orEmpty n.status).toList ::
      ((Text.split ':' (orEmpty n.image).toList ++ Text.split ':' (orEmpty n.networkId).toList) ++
        ((portsText n).toList :: (orEmpty n.stack).toList :: Text.split ':' (serviceKey n).toList))) := by
  rw [plainText_chars, Text.split_append_sep, Text.split_append (readable.status.not_mem List.mem_cons_self),
    Text.split_append_sep, Text.split_append_sep,
    Text.split_append ((portsText_without readable).not_mem List.mem_cons_self),
    Text.split_append (readable.stack.not_mem List.mem_cons_self), List.append_assoc]

theorem length_split_id {n : DGNode} (readable : n.Readable) : (Text.split ':' n.id.toList).length = 2 := by
  rw [Text.length_split, readable.id.1]

theorem length_split_serviceKey {n : DGNode} (readable : n.Readable) :
    (Text.split ':' (serviceKey n).toList).length = if n.service.isSome then 4 else 1 := by
  rw [serviceKey_eq]
  cases set : n.service with
  | none => rfl
  | some s => exact congrArg List.length (split_serviceText (readable.tasks s set))

/-- The end of an image without colons around it is the network: it is empty or has a type and a name. -/
theorem image_read {n n' : DGNode} (readable : n.Readable) (readable' : n'.Readable)
    (same : Text.split ':' (orEmpty n.image).toList ++ Text.split ':' (orEmpty n.networkId).toList =
      Text.split ':' (orEmpty n'.image).toList ++ Text.split ':' (orEmpty n'.networkId).toList) :
    orEmpty n.image = orEmpty n'.image ∧ orEmpty n.networkId = orEmpty n'.networkId := by
  have named {name : String} (plain : Without (':' :: nodeMarks) name) :
      Text.split ':' ("network:" ++ name).toList = ["network".toList] ++ [name.toList] := by
    have chars : ("network:" ++ name).toList = "network".toList ++ ':' :: name.toList := by simp
    rw [chars, Text.split_append (by decide), Text.split_of_not_mem (plain.not_mem List.mem_cons_self)]
    rfl
  have images {us vs : List (List Char)} (sized : us.length = vs.length)
      (same : Text.split ':' (orEmpty n.image).toList ++ us = Text.split ':' (orEmpty n'.image).toList ++ vs) :
      orEmpty n.image = orEmpty n'.image ∧ us = vs := by
    obtain ⟨parts, rest⟩ := List.append_inj' same sized
    exact ⟨String.toList_inj.mp (Text.split_inj parts), rest⟩
  -- the last field tells whether there is a network
  rcases readable.networkId with none | ⟨name, present, prefixed, plain⟩
  · rcases readable'.networkId with none' | ⟨name', present', prefixed', plain'⟩
    · rw [none, none'] at same ⊢
      exact ⟨(images rfl same).1, rfl⟩
    · rw [none, prefixed', named plain', ← List.append_assoc] at same
      have last := (List.append_inj' same rfl).2
      exact absurd (String.toList_eq_nil_iff.mp (List.cons.inj last).1.symm) present'
  · rcases readable'.networkId with none' | ⟨name', present', prefixed', plain'⟩
    · rw [none', prefixed, named plain, ← List.append_assoc] at same
      have last := (List.append_inj' same rfl).2
      exact absurd (String.toList_eq_nil_iff.mp (List.cons.inj last).1) present
    · rw [prefixed, prefixed', named plain, named plain'] at same
      have sized : ["network".toList, name.toList].length = ["network".toList, name'.toList].length := rfl
      obtain ⟨image, fields⟩ := images sized same
      rw [image, prefixed, prefixed', String.toList_inj.mp (List.cons.inj (List.cons.inj fields).2).1]
      exact ⟨rfl, rfl⟩

theorem plainText_read {n n' : DGNode} (readable : n.Readable) (readable' : n'.Readable)
    (node : n.swarmNode = n'.swarmNode) (same : plainText n = plainText n') : n.cover = n'.cover := by
  have fields := congrArg (fun s => Text.split ':' s.toList) same
  simp only [split_plainText readable, split_plainText readable'] at fields
  obtain ⟨ids, fields⟩ := List.append_inj fields ((length_split_id readable).trans (length_split_id readable').symm)
  have id : n.id = n'.id := String.toList_inj.mp (Text.split_inj ids)
  obtain ⟨status, fields⟩ := List.cons.inj fields
  -- the ID tells whether there is a service, so the fields are as many from the end
  have services : n.service.isSome = n'.service.isSome := by rw [readable.service, readable'.service, id]
  have sized : (Text.split ':' (serviceKey n).toList).length = (Text.split ':' (serviceKey n').toList).length := by
    rw [length_split_serviceKey readable, length_split_serviceKey readable', services]
  obtain ⟨middle, fields⟩ := List.append_inj' fields (by simp only [List.length_cons, sized])
  obtain ⟨image, network⟩ := image_read readable readable' middle
  obtain ⟨ports, fields⟩ := List.cons.inj fields
  obtain ⟨stack, service⟩ := List.cons.inj fields
  have service : n.service.map ServiceInfo.cover = n'.service.map ServiceInfo.cover := by
    rw [serviceKey_eq, serviceKey_eq] at service
    cases set : n.service with
    | none =>
      rw [set] at services
      have none' : n'.service = none := by simpa using services.symm
      rw [none']
    | some s =>
      rw [set] at services
      obtain ⟨s', set'⟩ := Option.isSome_iff_exists.mp services.symm
      rw [set, set'] at service
      rw [set', Option.map_some, Option.map_some,
        serviceText_read (readable.tasks s set) (readable'.tasks s' set') service]
  rw [DGNode.cover, DGNode.cover, NodeCover.mk.injEq]
  exact ⟨id, String.toList_inj.mp status, image, network, portsText_read readable readable' (String.toList_inj.mp ports),
    String.toList_inj.mp stack, service, node⟩

/-- A node's text shows its own end: the first mark, or the brace that closes it. -/
theorem nodeFingerprint_ended {n n' : DGNode} (readable : n.Readable) (readable' : n'.Readable) {us vs : List Char}
    (hu : ∀ u ∈ us.head?, u = ',') (hv : ∀ v ∈ vs.head?, v = ',')
    (same : (nodeFingerprint n).toList ++ us = (nodeFingerprint n').toList ++ vs) :
    plainText n = plainText n' ∧ n.swarmNode = n'.swarmNode ∧ us = vs := by
  have closed (s : SwarmNodeInfo) (us : List Char) : (jsonSwarmNode (some s)).toList ++ us =
      '\x7b' :: ((jsonBody s).toList ++ '\x7d' :: us) := by simp [jsonSwarmNode_chars]
  have json {n : DGNode} (us : List Char) : (nodeFingerprint n).toList ++ us =
      ((plainText n).toList ++ [':']) ++ ((jsonSwarmNode n.swarmNode).toList ++ us) := by
    rw [nodeFingerprint_eq]
    simp
  have front {n : DGNode} (readable : n.Readable) : ∀ c ∈ (plainText n).toList ++ [':'], ¬c ∈ nodeMarks := by
    intro c member
    rcases List.mem_append.mp member with text | colon
    · exact plainText_without readable c text
    · rw [List.mem_singleton.mp colon]
      decide
  have null : Without nodeMarks (jsonSwarmNode none) := by decide
  have comma {us : List Char} (hu : ∀ u ∈ us.head?, u = ',') : ∀ u ∈ us.head?, u ∈ nodeMarks := fun u first =>
    hu u first ▸ List.mem_cons_self
  have brace (cs : List Char) : ∀ u ∈ ('\x7b' :: cs).head?, u ∈ nodeMarks := by
    rintro u ⟨⟩
    decide
  rw [json, json] at same
  cases set : n.swarmNode with
  | none =>
    rw [set, ← List.append_assoc] at same
    have plain : ∀ c ∈ ((plainText n).toList ++ [':']) ++ (jsonSwarmNode none).toList, ¬c ∈ nodeMarks := fun c member =>
      (List.mem_append.mp member).elim (front readable c) (null c)
    cases set' : n'.swarmNode with
    | none =>
      rw [set', ← List.append_assoc] at same
      have plain' : ∀ c ∈ ((plainText n').toList ++ [':']) ++ (jsonSwarmNode none).toList, ¬c ∈ nodeMarks :=
        fun c member => (List.mem_append.mp member).elim (front readable' c) (null c)
      obtain ⟨texts, rest⟩ := Text.split_at_stop plain plain' (comma hu) (comma hv) same
      exact ⟨String.toList_inj.mp (List.append_cancel_right (List.append_cancel_right texts)), rfl, rest⟩
    | some s' =>
      rw [set', closed] at same
      obtain ⟨-, rest⟩ := Text.split_at_stop plain (front readable') (comma hu) (brace _) same
      exact absurd (hu _ (by rw [rest]; rfl)) (by decide)
  | some s =>
    rw [set, closed] at same
    cases set' : n'.swarmNode with
    | none =>
      rw [set', ← List.append_assoc] at same
      have plain' : ∀ c ∈ ((plainText n').toList ++ [':']) ++ (jsonSwarmNode none).toList, ¬c ∈ nodeMarks :=
        fun c member => (List.mem_append.mp member).elim (front readable' c) (null c)
      obtain ⟨-, rest⟩ := Text.split_at_stop (front readable) plain' (brace _) (comma hv) same
      exact absurd (hv _ (by rw [← rest]; rfl)) (by decide)
    | some s' =>
      rw [set', closed] at same
      obtain ⟨texts, rest⟩ := Text.split_at_stop (front readable) (front readable') (brace _) (brace _) same
      have whole := readable.swarmNode s set
      have whole' := readable'.swarmNode s' set'
      obtain ⟨bodies, rest⟩ := Text.split_at_first (jsonBody_without whole) (jsonBody_without whole') (List.cons.inj rest).2
      exact ⟨String.toList_inj.mp (List.append_cancel_right texts),
        congrArg some (jsonBody_read whole whole' (String.toList_inj.mp bodies)), rest⟩

theorem nodeFingerprint_read {n n' : DGNode} (readable : n.Readable) (readable' : n'.Readable)
    (same : nodeFingerprint n = nodeFingerprint n') : n.cover = n'.cover := by
  have none : ∀ u ∈ ([] : List Char).head?, u = ',' := fun u first => absurd first (Option.not_mem_none u)
  have chars : (nodeFingerprint n).toList ++ [] = (nodeFingerprint n').toList ++ [] := by rw [same]
  obtain ⟨plain, node, -⟩ := nodeFingerprint_ended readable readable' none none chars
  exact plainText_read readable readable' node plain

/-! ## Snapshots -/

/-- The IDs of the edges can be read back. -/
def Graph.PlainEdges (g : Graph) : Prop := ∀ e ∈ g.edges, e.id ≠ "" ∧ Without [',', '|'] e.id

instance (g : Graph) : Decidable g.PlainEdges :=
  inferInstanceAs (Decidable (∀ e ∈ g.edges, e.id ≠ "" ∧ Without [',', '|'] e.id))

/-- The fingerprint covers a difference: the IDs of the edges, or what it covers of the nodes. -/
structure Graph.ToldApart (a b : Graph) : Prop where
  edges : a.PlainEdges ∧ b.PlainEdges
  differ : ¬(a.edges.map DGEdge.id).Perm (b.edges.map DGEdge.id) ∨
    (∀ n ∈ a.nodes, n.Readable) ∧ (∀ n ∈ b.nodes, n.Readable) ∧
      ¬(a.nodes.map DGNode.cover).Perm (b.nodes.map DGNode.cover)

theorem Graph.ToldApart.fingerprint_ne {a b : Graph} (apart : a.ToldApart b) :
    snapshotFingerprint a.nodes a.edges ≠ snapshotFingerprint b.nodes b.edges := by
  intro same
  have ids {g : Graph} (plain : g.PlainEdges) :
      ∀ id ∈ jsSort (g.edges.map DGEdge.id), id ≠ "" ∧ Without [',', '|'] id := by
    intro id listed
    obtain ⟨e, member, rfl⟩ := List.mem_map.mp ((jsSort_perm _).subset listed)
    exact plain e member
  have barless {g : Graph} (plain : g.PlainEdges) : '|' ∉ (join "," (jsSort (g.edges.map DGEdge.id))).toList :=
    by
    have free : Without ['|'] (join "," (jsSort (g.edges.map DGEdge.id))) :=
      without_join ',' (by decide) fun id listed => (ids plain id listed).2.mono (by decide)
    exact free.not_mem List.mem_cons_self
  have chars (g : Graph) : (snapshotFingerprint g.nodes g.edges).toList =
      (join "," (jsSort (g.nodes.map nodeFingerprint))).toList ++ '|' ::
        (join "," (jsSort (g.edges.map DGEdge.id))).toList := by
    simp [snapshotFingerprint]
  have texts := congrArg String.toList same
  rw [chars a, chars b] at texts
  obtain ⟨nodes, edges⟩ := Text.split_at_last (barless apart.edges.1) (barless apart.edges.2) texts
  rcases apart.differ with edgesDiffer | ⟨readable, readable', nodesDiffer⟩
  · apply edgesDiffer
    have sorted : jsSort (a.edges.map DGEdge.id) = jsSort (b.edges.map DGEdge.id) :=
      join_inj (fun id listed => (ids apart.edges.1 id listed).1)
        (fun id listed => (ids apart.edges.2 id listed).1)
        (fun id listed => (ids apart.edges.1 id listed).2.not_mem List.mem_cons_self)
        (fun id listed => (ids apart.edges.2 id listed).2.not_mem List.mem_cons_self)
        (show CodeUnits.join ',' _ = CodeUnits.join ',' _ from String.toList_inj.mp edges)
    exact (jsSort_perm _).symm.trans (sorted ▸ jsSort_perm _)
  · apply nodesDiffer
    have text {g : Graph} {t : String} (listed : t ∈ jsSort (g.nodes.map nodeFingerprint)) :
        ∃ n ∈ g.nodes, nodeFingerprint n = t := List.mem_map.mp ((jsSort_perm _).subset listed)
    have present {g : Graph} : ∀ t ∈ jsSort (g.nodes.map nodeFingerprint), t ≠ "" := by
      rintro t listed rfl
      obtain ⟨n, -, empty⟩ := text listed
      rw [nodeFingerprint_eq] at empty
      simpa using congrArg String.toList empty
    have sorted : jsSort (a.nodes.map nodeFingerprint) = jsSort (b.nodes.map nodeFingerprint) := by
      refine join_inj_of_ended present present ?_
        (show CodeUnits.join ',' _ = CodeUnits.join ',' _ from String.toList_inj.mp nodes)
      intro t listed t' listed' us vs hu hv whole
      obtain ⟨n, member, rfl⟩ := text listed
      obtain ⟨n', member', rfl⟩ := text listed'
      obtain ⟨plain, node, rest⟩ := nodeFingerprint_ended (readable n member) (readable' n' member') hu hv whole
      exact ⟨by rw [nodeFingerprint_eq, nodeFingerprint_eq, plain, node], rest⟩
    have perm : (a.nodes.map nodeFingerprint).Perm (b.nodes.map nodeFingerprint) :=
      (jsSort_perm _).symm.trans (sorted ▸ jsSort_perm _)
    exact perm_map_of_told (fun _ _ => nodeFingerprint_read) readable readable' perm

end Dockgraph.Frontend
