import Dockgraph.Collector.EventHistory
import Dockgraph.Collector.SnapshotIDs
import Dockgraph.Library.Grouped
import Dockgraph.Library.MapLoop

/-!
# The graph of a compose file (`collector/compose_parser.go`)

What the loader makes of a file is given. Its maps are visited in any order, by each loop in one of its own.
-/
namespace Dockgraph.Collector

open Keyed

/-! ## What the loader gives -/

/-- A top-level network or volume. -/
structure ComposeResource where
  name : String := ""
  external : Bool := false

structure ServicePort where
  target : UInt32
  published : String := ""
  protocol : String := ""

structure ServiceVolume where
  type : String
  source : String := ""
  target : String := ""
  readOnly : Bool := false

structure DeployConfig where
  mode : String := ""
  replicas : Option Int := none
  labels : StringMap := none

structure ComposeService where
  name : String
  image : String := ""
  entrypoint : Slice String := none
  command : Slice String := none
  /-- A variable without a value has none. -/
  environment : AList (fun _ : String => Option String) := ∅
  labels : StringMap := none
  restart : String := ""
  user : String := ""
  workingDir : String := ""
  privileged : Bool := false
  readOnly : Bool := false
  capAdd : Slice String := none
  capDrop : Slice String := none
  /-- The keys of the maps. -/
  dependsOn : List String := []
  networks : List String := []
  volumes : List ServiceVolume := []
  ports : List ServicePort := []
  deploy : Option DeployConfig := none

structure ComposeProject where
  name : String
  networks : AList (fun _ : String => ComposeResource) := ∅
  volumes : AList (fun _ : String => ComposeResource) := ∅
  services : List ComposeService := []

/-- The loops over maps, those over a service's maps by its name. -/
inductive ComposeLoop
  | networkNames
  | volumeNames
  | networks
  | volumes
  | services
  | joined (service : String)
  | needed (service : String)
  | environment (service : String)
  | listedNeeds (service : String)
  | listedNetworks (service : String)

abbrev LoopOrders := ComposeLoop → RangeOrder

/-- What a loop over a map writes under the keys it visits. -/
def written {α : Type} (ord : RangeOrder) (held : String → α → Option String) (m : AList (fun _ : String => α)) :
    Finmap fun _ : String => String :=
  ((ord.visit m.entries).foldl (write Sigma.fst fun e => held e.1 e.2) ∅).toFinmap

/-! ## Names -/

structure ComposeNaming where
  project : String
  swarm : Bool
  networks : Finmap fun _ : String => String
  volumes : Finmap fun _ : String => String

namespace ComposeNaming

/-- `composeNaming.network` and `.volume`. -/
def resolve (n : ComposeNaming) (resolved : Finmap fun _ : String => String) (name : String) : String :=
  let known := (resolved.lookup name).getD ""
  if known ≠ "" then known else n.project ++ "_" ++ name

def network (n : ComposeNaming) (name : String) : String := n.resolve n.networks name

def volume (n : ComposeNaming) (name : String) : String := n.resolve n.volumes name

def container (n : ComposeNaming) (name : String) : String :=
  if n.swarm then n.project ++ "_" ++ name else n.project ++ "-" ++ name ++ "-1"

def nodeID (n : ComposeNaming) (name : String) : String :=
  if n.swarm then "service:" ++ n.container name else "container:" ++ n.container name

end ComposeNaming

def newComposeNaming (ord : LoopOrders) (p : ComposeProject) (swarm : Bool) : ComposeNaming :=
  let named (_ : String) (r : ComposeResource) := if r.name ≠ "" then some r.name else none
  { project := p.name
    swarm
    networks := written (ord .networkNames) named p.networks
    volumes := written (ord .volumeNames) named p.volumes }

/-! ## Ports -/

/-- `fmt` reads no number past the end of a line. -/
def skipSpace (cs : List Char) : Option (List Char) :=
  let rest := cs.dropWhile fun c => Text.isSpace c && c ≠ '\n'
  if rest.head? = some '\n' then none else some rest

/-- `%d` of `fmt.Sscanf`, and what is after the number. -/
def scanInt (cs : List Char) : Option (Int × List Char) :=
  (skipSpace cs).bind fun cs =>
    let (negative, digits) := Text.sign cs
    let minus := if negative then "-" else ""
    (Text.parseInt (minus ++ String.ofList (digits.takeWhile Char.isDigit))).map fun n =>
      (n, digits.dropWhile Char.isDigit)

/-- `fmt.Sscanf(published, "%d-%d", &host, &hostEnd)` -/
def scanPublished (published : String) : Option (Int × Int) :=
  (scanInt published.toList).map fun (host, rest) =>
    match rest with
    | '-' :: rest => (host, ((scanInt rest).map Prod.fst).getD 0)
    | _ => (host, 0)

def parseComposePort (p : ServicePort) : Option PortMapping :=
  if p.published = "" then none
  else (scanPublished p.published).map fun (host, hostEnd) =>
    { host
      hostEnd := if hostEnd ≤ host then 0 else hostEnd
      container := p.target.toNat
      protocol := if p.protocol ≠ "" then p.protocol else "tcp" }

def parseComposePorts (ports : List ServicePort) : Slice PortMapping :=
  .appended (portRanges (ports.filterMap parseComposePort))

/-! ## Networks and volumes -/

/-- The node of a network or a volume that is not running. -/
def declaredNode (naming : ComposeNaming) (sourceName : String) (r : ComposeResource) (node : Node) : Node :=
  { node with
    status := "not_running"
    source := sourceName
    stack := if r.external then "" else naming.project }

def buildComposeNetworkNodes (ord : LoopOrders) (p : ComposeProject) (naming : ComposeNaming)
    (sourceName : String) : List Node :=
  ((ord .networks).visit p.networks.entries).filterMap fun ⟨name, net⟩ =>
    if name = "default" then none
    else some (declaredNode naming sourceName net (buildNetworkNode (naming.network name) ""))

/-- The networks with a node. -/
def ComposeProject.tracked (p : ComposeProject) (name : String) : Bool := name ≠ "default" ∧ name ∈ p.networks

def buildComposeVolumeNodes (ord : LoopOrders) (p : ComposeProject) (naming : ComposeNaming)
    (sourceName : String) : List Node :=
  ((ord .volumes).visit p.volumes.entries).map fun ⟨name, vol⟩ =>
    declaredNode naming sourceName vol (buildVolumeNode (naming.volume name) "" "not_running")

/-! ## Services -/

/-- `secrets.MaskCommand` -/
def maskCommand (entrypoint command : Slice String) : Slice String × Slice String :=
  let (maskedEntrypoint, maskedCommand) :=
    Secrets.maskCommand (entrypoint.elems.map String.toList) (command.elems.map String.toList)
  (entrypoint.map fun _ => maskedEntrypoint.map String.ofList, command.map fun _ => maskedCommand.map String.ofList)

/-- `secrets.MaskLabels` -/
def maskLabels (labels : StringMap) : StringMap :=
  labels.map fun m => MapLoop.writeEach (fun k _ v => maskEnvValue k v) m ∅

namespace ComposeService

variable (ord : LoopOrders) (p : ComposeProject) (naming : ComposeNaming) (svc : ComposeService)

def isSelfExcluded : Bool :=
  Collector.isSelfExcluded svc.labels || svc.deploy.any fun d => Collector.isSelfExcluded d.labels

/-- `stackServiceInfo` -/
def serviceInfo : ServiceInfo :=
  match svc.deploy with
  | none => { mode := "replicated", replicas := { desired := 1 } }
  | some d =>
    if d.mode = "global" ∨ d.mode = "global-job" then { mode := d.mode }
    else
      { mode := if d.mode = "replicated-job" then d.mode else "replicated"
        replicas := { desired := d.replicas.getD 1 } }

def mount (v : ServiceVolume) : ComposeMount where
  type := v.type
  source := v.source
  destination := v.target
  rw := !v.readOnly
  name := if v.type = "volume" then naming.volume v.source else ""

/-- `buildComposeConfig` -/
def config : ComposeConfig :=
  let (entrypoint, command) := maskCommand svc.entrypoint svc.command
  { service := svc.name
    command
    entrypoint
    restart := svc.restart
    user := svc.user
    workingDir := svc.workingDir
    privileged := svc.privileged
    readOnly := svc.readOnly
    capAdd := svc.capAdd
    capDrop := svc.capDrop
    environment :=
      if svc.environment.entries.isEmpty then none
      else some (written (ord (.environment svc.name)) (fun k v => v.map (maskEnvValue k)) svc.environment)
    labels := if svc.labels.entries = ∅ then none else maskLabels svc.labels
    dependsOn := .appended (((ord (.listedNeeds svc.name)).visit svc.dependsOn).map naming.container)
    volumes := .appended (svc.volumes.map (mount naming))
    networks := .appended (((ord (.listedNetworks svc.name)).visit svc.networks).map naming.network) }

/-- The primary network and the others. -/
def classified : String × List String :=
  classifyNetworks (((ord (.joined svc.name)).visit svc.networks).filter p.tracked) "" ∅

/-- `buildServiceEdges` -/
def edges : List Edge :=
  let name := naming.container svc.name
  (svc.classified ord p).2.map (fun net => networkEdge name (naming.nodeID svc.name) (naming.network net)) ++
    ((ord (.needed svc.name)).visit svc.dependsOn).map (fun dep =>
      { id := "e:dep:" ++ name ++ ":" ++ naming.container dep
        type := "depends_on"
        source := naming.nodeID svc.name
        target := naming.nodeID dep }) ++
    (svc.volumes.filter fun v => v.type = "volume").map fun v =>
      mountEdge (naming.volume v.source) name (naming.nodeID svc.name) v.target

/-- `buildServiceNode` -/
def node (sourceName : String) : Node :=
  let primary := (svc.classified ord p).1
  let workload := buildContainerNode (naming.container svc.name) svc.image "not_running" (parseComposePorts svc.ports)
  { workload with
    id := naming.nodeID svc.name
    type := if naming.swarm then "service" else workload.type
    networkID := if primary ≠ "" then "network:" ++ naming.network primary else ""
    source := sourceName
    compose := some (svc.config ord naming)
    stack := naming.project
    service := if naming.swarm then some svc.serviceInfo else none }

end ComposeService

namespace ComposeProject

variable (ord : LoopOrders) (swarm : Bool) (sourceName : String) (p : ComposeProject)

/-- The services that get a node. -/
def shown : List ComposeService := p.services.filter fun svc => !svc.isSelfExcluded

/-- The graph `loadComposeFile` makes of the loaded project. -/
def graph : GraphSnapshot :=
  let naming := newComposeNaming ord p swarm
  let services := ((ord .services).visit p.services).filter fun svc => !svc.isSelfExcluded
  { nodes := buildComposeNetworkNodes ord p naming sourceName ++ buildComposeVolumeNodes ord p naming sourceName ++
      services.map fun svc => svc.node ord p naming sourceName
    edges := services.flatMap fun svc => svc.edges ord p naming }

end ComposeProject

/-! ## Loops in any order -/

theorem find?_entries {α : Type} (k : String) (entries : List ((_ : String) × α)) :
    (entries.find? fun e => e.1 = k) = (entries.dlookup k).map fun a => ⟨k, a⟩ := by
  induction entries with
  | nil => rfl
  | cons e entries ih =>
    obtain ⟨l, a⟩ := e
    by_cases same : l = k
    · subst same
      simp
    · have other : k ≠ l := fun eq => same eq.symm
      rw [List.find?_cons_of_neg (by simpa using same), ih, List.dlookup_cons_ne entries _ other]

theorem lookup_written {α : Type} (ord : RangeOrder) (held : String → α → Option String)
    (m : AList (fun _ : String => α)) (k : String) :
    (written ord held m).lookup k = (m.lookup k).bind (held k) := by
  have perm := ord.perm m.entries
  have unique : ((ord.visit m.entries).map Sigma.fst).Nodup := (perm.map _).nodup_iff.mpr m.nodupKeys
  have found : (ord.visit m.entries).dlookup k = m.lookup k := List.perm_dlookup k unique perm
  rw [written, Finmap.lookup_toFinmap, lookup_foldl_write Sigma.fst _ unique, find?_entries, found]
  cases m.lookup k <;> rfl

/-- The names do not depend on the order of the loops over the maps. -/
theorem newComposeNaming_eq (ord ord' : LoopOrders) (p : ComposeProject) (swarm : Bool) :
    newComposeNaming ord p swarm = newComposeNaming ord' p swarm := by
  have same {α : Type} (o o' : RangeOrder) (held : String → α → Option String) (m : AList (fun _ : String => α)) :
      written o held m = written o' held m :=
    Finmap.ext_lookup fun k => by rw [lookup_written, lookup_written]
  simp only [newComposeNaming]
  rw [same (ord .networkNames) (ord' .networkNames), same (ord .volumeNames) (ord' .volumeNames)]

/-! ## The graph is closed -/

/-- What the loader checks: the volumes and services that are named are there. Services are keyed by their names. -/
structure ComposeProject.Consistent (p : ComposeProject) : Prop where
  volumes : ∀ svc ∈ p.services, ∀ v ∈ svc.volumes, v.type = "volume" → v.source ≠ "" → v.source ∈ p.volumes
  dependsOn : ∀ svc ∈ p.services, ∀ dep ∈ svc.dependsOn, ∃ other ∈ p.services, other.name = dep
  services : (p.services.map ComposeService.name).Nodup

section Graph

variable {p : ComposeProject} {ord : LoopOrders} {swarm : Bool} {sourceName : String}

variable (ord swarm sourceName)

variable {ord swarm sourceName}

theorem nodeID_inj (naming : ComposeNaming) : Function.Injective naming.nodeID := by
  intro name name' same
  have chars := congrArg String.toList same
  by_cases stack : naming.swarm <;> simp [ComposeNaming.nodeID, ComposeNaming.container, stack] at chars
  · exact String.toList_inj.mp chars
  · exact String.toList_inj.mp chars

end Graph

/-- A web server that needs a database, and DockGraph itself. -/
def shopProject (password : String) : ComposeProject where
  name := "shop"
  networks := (∅ : AList fun _ => ComposeResource).insert "front" {}
  volumes := (∅ : AList fun _ => ComposeResource).insert "data" { name := "shop-data", external := true }
  services :=
    [{ name := "web", networks := ["front"], dependsOn := ["db"], ports := [{ target := 80, published := "8080" }] },
      { name := "db"
        networks := ["front"]
        environment := (∅ : AList fun _ => Option String).insert "DB_PASSWORD" (some password)
        volumes := [{ type := "volume", source := "data", target := "/var/lib/db" }] },
      { name := "dockgraph", labels := some (Finmap.singleton selfExcludeLabel "true"), dependsOn := ["web"] }]

/-- Two values under one key, the same but for a credential's. -/
def ValuesAlike (k a b : String) : Prop := Secrets.isSensitiveKey k.toList = true ∨ a = b

def LabelsAlike : StringMap → StringMap → Prop :=
  Option.Rel fun m m' => ∀ k, Option.Rel (ValuesAlike k) (Finmap.lookup k m) (Finmap.lookup k m')

/-- Two services that differ in the values of credentials. -/
inductive ServicesAlike : ComposeService → ComposeService → Prop
  | mk (svc : ComposeService) {env : AList (fun _ : String => Option String)} {labels : StringMap}
      (environment : ∀ k, Option.Rel (Option.Rel (ValuesAlike k)) (svc.environment.lookup k) (env.lookup k))
      (labelled : LabelsAlike svc.labels labels) :
      ServicesAlike svc { svc with environment := env, labels }

/-- Two projects that do. -/
structure ProjectsAlike (p p' : ComposeProject) : Prop where
  name : p.name = p'.name
  networks : p.networks = p'.networks
  volumes : p.volumes = p'.volumes
  services : List.Forall₂ ServicesAlike p.services p'.services

/-- The lists in a loop's order, sorted. -/
def ComposeConfig.sorted (c : ComposeConfig) : ComposeConfig :=
  { c with
    dependsOn := c.dependsOn.map fun names => names.mergeSort fun a b => a ≤ b
    networks := c.networks.map fun names => names.mergeSort fun a b => a ≤ b }

def Node.sorted (n : Node) : Node := { n with compose := n.compose.map ComposeConfig.sorted }

section Alike

variable {labels labels' : StringMap}

theorem maskEnvValue_alike {k a b : String} (alike : ValuesAlike k a b) : maskEnvValue k a = maskEnvValue k b := by
  rcases alike with sensitive | rfl
  · simp [maskEnvValue, Secrets.maskEnvValue, sensitive]
  · rfl

theorem rel_cases {α : Type} {r : α → α → Prop} {o o' : Option α} (related : Option.Rel r o o') :
    o = none ∧ o' = none ∨ ∃ a b, o = some a ∧ o' = some b ∧ r a b := by
  cases related with
  | none => exact .inl ⟨rfl, rfl⟩
  | some held => exact .inr ⟨_, _, rfl, rfl, held⟩

theorem rel_map_eq {α β : Type} {r : α → α → Prop} {f : α → β} {o o' : Option α} (related : Option.Rel r o o')
    (same : ∀ a b, r a b → f a = f b) : o.map f = o'.map f := by
  cases related with
  | none => rfl
  | some held => exact congrArg some (same _ _ held)

theorem maskLabels_alike (alike : LabelsAlike labels labels') : maskLabels labels = maskLabels labels' := by
  refine rel_map_eq alike fun m m' same => Finmap.ext_lookup fun k => ?_
  rw [MapLoop.lookup_writeEach, MapLoop.lookup_writeEach]
  rcases rel_cases (same k) with ⟨absent, absent'⟩ | ⟨v, v', found, found', held⟩
  · rw [absent, absent']
  · rw [found, found']
    exact congrArg some (maskEnvValue_alike held)

/-- A nil map reads as an empty one. -/
theorem rel_entries (alike : LabelsAlike labels labels') (k : String) :
    Option.Rel (ValuesAlike k) (Finmap.lookup k labels.entries) (Finmap.lookup k labels'.entries) := by
  cases alike with
  | none =>
    have absent : Finmap.lookup k (StringMap.entries none) = none := Finmap.lookup_empty k
    rw [absent]
    exact .none
  | some held => exact held k

theorem entries_empty_alike (alike : LabelsAlike labels labels') : labels.entries = ∅ ↔ labels'.entries = ∅ := by
  have empty (m : Finmap fun _ : String => String) : m = ∅ ↔ ∀ k, m.lookup k = none := by
    constructor
    · rintro rfl k
      exact Finmap.lookup_empty k
    · exact fun none => Finmap.ext_lookup fun k => by rw [none k, Finmap.lookup_empty]
  rw [empty, empty]
  refine forall_congr' fun k => ?_
  rcases rel_cases (rel_entries alike k) with ⟨absent, absent'⟩ | ⟨v, v', found, found', -⟩
  · rw [absent, absent']
  · simp [found, found']

/-- The key of the label that excludes DockGraph is no credential's. -/
theorem isSelfExcluded_alike (alike : LabelsAlike labels labels') : isSelfExcluded labels = isSelfExcluded labels' := by
  have plain : Secrets.isSensitiveKey selfExcludeLabel.toList = false := by decide
  have same : Finmap.lookup selfExcludeLabel labels.entries = Finmap.lookup selfExcludeLabel labels'.entries := by
    rcases rel_cases (rel_entries alike selfExcludeLabel) with ⟨absent, absent'⟩ | ⟨v, v', found, found', held⟩
    · rw [absent, absent']
    · rcases held with sensitive | rfl
      · rw [plain] at sensitive
        cases sensitive
      · rw [found, found']
  rw [isSelfExcluded, isSelfExcluded, StringMap.get, StringMap.get, same]

/-- The variables are masked alike. -/
theorem environment_alike {env env' : AList (fun _ : String => Option String)} (ord ord' : RangeOrder)
    (alike : ∀ k, Option.Rel (Option.Rel (ValuesAlike k)) (env.lookup k) (env'.lookup k)) :
    env.entries.isEmpty = env'.entries.isEmpty ∧
      written ord (fun k v => v.map (maskEnvValue k)) env = written ord' (fun k v => v.map (maskEnvValue k)) env' := by
  constructor
  · have empty (m : AList (fun _ : String => Option String)) : m.entries.isEmpty = true ↔ ∀ k, m.lookup k = none := by
      have keys : m.entries.isEmpty = true ↔ m.keys = [] := by simp [AList.keys, List.keys]
      simp only [keys, AList.lookup_eq_none, List.eq_nil_iff_forall_not_mem, AList.mem_keys]
    rw [Bool.eq_iff_iff, empty, empty]
    refine forall_congr' fun k => ?_
    rcases rel_cases (alike k) with ⟨absent, absent'⟩ | ⟨v, v', found, found', -⟩
    · rw [absent, absent']
    · simp [found, found']
  · refine Finmap.ext_lookup fun k => ?_
    rw [lookup_written, lookup_written]
    rcases rel_cases (alike k) with ⟨absent, absent'⟩ | ⟨v, v', found, found', held⟩
    · rw [absent, absent']
    · rw [found, found']
      exact rel_map_eq held fun a b => maskEnvValue_alike

theorem sort_appended {xs ys : List String} (perm : xs.Perm ys) :
    ((Slice.appended xs).map fun names => names.mergeSort fun a b => a ≤ b) =
      (Slice.appended ys).map fun names => names.mergeSort fun a b => a ≤ b := by
  have sorted := SortBy.mergeSort_eq_of_perm id Function.injective_id perm
  by_cases none : xs = []
  · rw [none] at perm
    rw [none, perm.nil_eq]
  · have some : ys ≠ [] := fun empty => none (List.perm_nil.mp (empty ▸ perm))
    simpa [Slice.appended, none, some] using sorted

/-- Two loops over one map. -/
theorem visits_perm {α : Type} (ord ord' : RangeOrder) (xs : List α) : (ord.visit xs).Perm (ord'.visit xs) :=
  (ord.perm xs).trans (ord'.perm xs).symm

variable {svc svc' : ComposeService} {ord ord' : LoopOrders} {p p' : ComposeProject} (naming : ComposeNaming)

theorem config_alike (alike : ServicesAlike svc svc') :
    (svc.config ord naming).sorted = (svc'.config ord' naming).sorted := by
  cases alike with | mk environment labelled =>
  obtain ⟨empty, masked⟩ := environment_alike (ord (.environment svc.name)) (ord' (.environment svc.name)) environment
  have needs := sort_appended ((visits_perm (ord (.listedNeeds svc.name)) (ord' (.listedNeeds svc.name))
    svc.dependsOn).map naming.container)
  have networks := sort_appended ((visits_perm (ord (.listedNetworks svc.name)) (ord' (.listedNetworks svc.name))
    svc.networks).map naming.network)
  simp only [ComposeService.config, ComposeConfig.sorted, empty, masked, needs, networks,
    entries_empty_alike labelled, maskLabels_alike labelled]

theorem classified_alike (alike : ServicesAlike svc svc') (networks : p.networks = p'.networks) :
    svc.classified ord p = svc'.classified ord' p' := by
  cases alike with | mk _ _ =>
  have tracked : p.tracked = p'.tracked := funext fun name => by simp [ComposeProject.tracked, networks]
  rw [ComposeService.classified, ComposeService.classified, tracked]
  exact classifyNetworks_perm ((visits_perm _ _ _).filter _) _ _

theorem excluded_alike (alike : ServicesAlike svc svc') : svc.isSelfExcluded = svc'.isSelfExcluded := by
  cases alike with | mk _ labelled =>
  simp only [ComposeService.isSelfExcluded, isSelfExcluded_alike labelled]

theorem node_alike (alike : ServicesAlike svc svc') (networks : p.networks = p'.networks) (sourceName : String) :
    (svc.node ord p naming sourceName).sorted = (svc'.node ord' p' naming sourceName).sorted := by
  have config : (svc.config ord naming).sorted = (svc'.config ord' naming).sorted := config_alike naming alike
  have classified : svc.classified ord p = svc'.classified ord' p' := classified_alike alike networks
  cases alike with | mk _ _ =>
  simp only [ComposeService.node, Node.sorted, classified, Option.map_some, config]
  rfl

theorem edges_alike (alike : ServicesAlike svc svc') (networks : p.networks = p'.networks) :
    (svc.edges ord p naming).Perm (svc'.edges ord' p' naming) := by
  have classified : svc.classified ord p = svc'.classified ord' p' := classified_alike alike networks
  cases alike with | mk _ _ =>
  simp only [ComposeService.edges, classified]
  exact ((List.Perm.refl _).append ((visits_perm _ _ _).map _)).append (List.Perm.refl _)

/-- The shown services of either project, visited in any order. -/
theorem services_alike {α : Type} {f f' : ComposeService → List α} {services services' : List ComposeService}
    (alike : List.Forall₂ ServicesAlike services services')
    (same : ∀ svc svc', ServicesAlike svc svc' → (f svc).Perm (f' svc')) (o o' : RangeOrder) :
    (((o.visit services).filter fun svc => !svc.isSelfExcluded).flatMap f).Perm
      (((o'.visit services').filter fun svc => !svc.isSelfExcluded).flatMap f') := by
  have listed : ((services.filter fun svc => !svc.isSelfExcluded).flatMap f).Perm
      ((services'.filter fun svc => !svc.isSelfExcluded).flatMap f') := by
    induction alike with
    | nil => exact .nil
    | @cons svc svc' _ _ first _ ih =>
      have excluded := excluded_alike first
      by_cases shown : svc.isSelfExcluded = true
      · rw [List.filter_cons_of_neg (by simp [shown]), List.filter_cons_of_neg (by simp [← excluded, shown])]
        exact ih
      · rw [List.filter_cons_of_pos (by simpa using shown), List.filter_cons_of_pos (by simpa [← excluded] using shown),
          List.flatMap_cons, List.flatMap_cons]
        exact (same _ _ first).append ih
  -- the maps are visited in any order
  have visited := ((o.perm services).filter fun svc => !svc.isSelfExcluded).flatMap_right f
  have visited' := ((o'.perm services').filter fun svc => !svc.isSelfExcluded).flatMap_right f'
  exact visited.trans (listed.trans visited'.symm)

end Alike

/-- Neither the order in which maps are visited nor the values of credentials make a difference to the graph, but for
the order of what it lists. -/
theorem graph_alike {p p' : ComposeProject} (alike : ProjectsAlike p p') (ord ord' : LoopOrders) (swarm : Bool)
    (sourceName : String) :
    ((p.graph ord swarm sourceName).nodes.map Node.sorted).Perm
        ((p'.graph ord' swarm sourceName).nodes.map Node.sorted) ∧
      (p.graph ord swarm sourceName).edges.Perm (p'.graph ord' swarm sourceName).edges := by
  obtain ⟨name, networks, volumes, services⟩ := alike
  have naming : newComposeNaming ord p swarm = newComposeNaming ord' p' swarm := by
    rw [newComposeNaming_eq ord ord']
    simp only [newComposeNaming, name, networks, volumes]
  simp only [ComposeProject.graph, naming]
  constructor
  · simp only [List.map_append, buildComposeNetworkNodes, buildComposeVolumeNodes, networks, volumes]
    refine .append (.append ?_ ?_) ?_
    · exact ((visits_perm (ord .networks) (ord' .networks) _).filterMap _).map _
    · exact ((visits_perm (ord .volumes) (ord' .volumes) _).map _).map _
    · rw [List.map_map, List.map_map, List.map_eq_flatMap, List.map_eq_flatMap]
      refine services_alike services (fun svc svc' same => ?_) _ _
      exact .of_eq (congrArg (fun n => [n]) (node_alike _ same networks sourceName))
  · exact services_alike services (fun svc svc' same => edges_alike _ same networks) _ _

/-- One password is set, the other is not, and the loops run the other way. -/
theorem graph_alike_password :
    (((shopProject "hunter2").graph (fun _ => .asWritten) true "stack.yml").nodes.map Node.sorted).Perm
      (((shopProject "").graph (fun _ => .backwards) true "stack.yml").nodes.map Node.sorted) := by
  have sensitive : Secrets.isSensitiveKey "DB_PASSWORD".toList = true := by decide +kernel
  have rel (o : Option (Option String)) (k : String) : Option.Rel (Option.Rel (ValuesAlike k)) o o := by
    rcases o with _ | _ | v
    · exact .none
    · exact .some .none
    · exact .some (.some (.inr rfl))
  have same (labels : StringMap) : LabelsAlike labels labels := by
    cases labels with
    | none => exact .none
    | some m =>
      refine .some fun k => ?_
      cases Finmap.lookup k m with
      | none => exact .none
      | some v => exact .some (.inr rfl)
  refine (graph_alike ⟨rfl, rfl, rfl, ?_⟩ (fun _ => .asWritten) (fun _ => .backwards) true "stack.yml").1
  refine .cons (.mk _ (fun k => rel _ k) (same _))
    (.cons (.mk _ (fun k => ?_) (same _)) (.cons (.mk _ (fun k => rel _ k) (same _)) .nil))
  by_cases password : k = "DB_PASSWORD"
  · subst password
    exact .some (.some (.inl sensitive))
  · have other (text : String) : ((∅ : AList fun _ => Option String).insert "DB_PASSWORD" (some text)).lookup k = none := by
      rw [AList.lookup_insert_ne password, AList.lookup_empty]
    simp only [other]
    exact .none

end Dockgraph.Collector
