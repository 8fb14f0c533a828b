import Dockgraph.Frontend.Types
import Mathlib.Data.List.Sort
import Mathlib.Data.String.Basic

/-! Snapshot fingerprints and delta application (`utils/deltaUtils.ts`, `utils/ports.ts`). -/
namespace Dockgraph.Frontend

/-- `{ ...node, ...update }`: a property absent from `update` keeps its old value. -/
def DGNode.spread (node update : DGNode) : DGNode where
  id := update.id
  type := update.type
  name := update.name
  image := update.image <|> node.image
  status := update.status <|> node.status
  ports := update.ports <|> node.ports
  labels := update.labels <|> node.labels
  networkId := update.networkId <|> node.networkId
  driver := update.driver <|> node.driver
  subnet := update.subnet <|> node.subnet
  gateway := update.gateway <|> node.gateway
  source := update.source <|> node.source
  createdAt := update.createdAt <|> node.createdAt
  compose := update.compose <|> node.compose
  stack := update.stack <|> node.stack
  service := update.service <|> node.service
  swarmNode := update.swarmNode <|> node.swarmNode

/-- Body of the loop over `nodesUpdated`. -/
def mergeUpdate (nodes : List DGNode) (update : DGNode) : List DGNode :=
  match nodes.findIdx? fun n => n.id = update.id with
  | none => nodes
  | some idx => nodes.modify idx fun n => n.spread update

def applyDelta (prev : Graph) (delta : DeltaUpdate) : Graph :=
  let nodes := prev.nodes
  let edges := prev.edges
  let nodes := match delta.nodesRemoved with
    | some removed => nodes.filter fun n => n.id ∉ removed
    | none => nodes
  let nodes := match delta.nodesAdded with
    | some added => nodes ++ added
    | none => nodes
  let nodes := match delta.nodesUpdated with
    | some updated => updated.foldl mergeUpdate nodes
    | none => nodes
  let edges := match delta.edgesRemoved with
    | some removed => edges.filter fun e => e.id ∉ removed
    | none => edges
  let edges := match delta.edgesAdded with
    | some added => edges ++ added
    | none => edges
  { nodes, edges }

/-! ## Fingerprints -/

/-- The UTF-16 code units of a string. -/
def utf16 (s : String) : List Nat :=
  s.toList.flatMap fun c =>
    if c.toNat < 0x10000 then [c.toNat]
    else [0xD800 + (c.toNat - 0x10000) / 0x400, 0xDC00 + (c.toNat - 0x10000) % 0x400]

/-- `Array.prototype.sort` without a comparator: by UTF-16 code units. -/
def jsSort (xs : List String) : List String :=
  xs.insertionSort fun a b => utf16 a ≤ utf16 b

def join (separator : String) (xs : List String) : String := separator.intercalate xs

def orEmpty (s : Option String) : String := s.getD ""

/-- `end ? ... : ...`: an absent end and the end 0 are both falsy. -/
def portSpan (start : Int) (last : Option Int) : String :=
  match last with
  | some e => if e ≠ 0 then s!"{start}-{e}" else toString start
  | none => toString start

def hostPorts (p : PortMapping) : String := portSpan p.host p.hostEnd

def containerPorts (p : PortMapping) : String := portSpan p.container p.containerEnd

def serviceKey (n : DGNode) : String :=
  match n.service with
  | none => ""
  | some s =>
    let tasks := join ";" (jsSort ((s.tasks.getD []).map fun t =>
      s!"{t.id}={orEmpty t.state}/{orEmpty t.desiredState}@{orEmpty t.nodeId}"))
    s!"{s.replicas.running}/{s.replicas.desired}:{orEmpty s.mode}:{orEmpty s.updateStatus}:{tasks}"

def hexDigits (n : Nat) : String :=
  String.ofList ((Nat.toDigits 16 (0x10000 + n)).drop 1)

/-- One character inside a string literal of `JSON.stringify`. -/
def jsonChar (c : Char) : String :=
  if c = '"' then "\\\"" else if c = '\\' then "\\\\"
  else if c.toNat = 8 then "\\b" else if c.toNat = 9 then "\\t" else if c.toNat = 10 then "\\n"
  else if c.toNat = 12 then "\\f" else if c.toNat = 13 then "\\r"
  else if c.toNat < 32 then "\\u" ++ hexDigits c.toNat
  else c.toString

def jsonString (s : String) : String := "\"" ++ String.join (s.toList.map jsonChar) ++ "\""

/-- `JSON.stringify(n.swarmNode ?? null)`, properties in the order the backend writes them. -/
def jsonSwarmNode : Option SwarmNodeInfo → String
  | none => "null"
  | some s =>
    let member (name : String) (value : Option String) : List String :=
      (value.map fun v => jsonString name ++ ":" ++ v).toList
    "\x7b" ++ join "," (member "id" (jsonString s.id) ++ member "role" (jsonString s.role) ++
      member "leader" (s.leader.map toString) ++
      member "availability" (jsonString s.availability) ++ member "state" (jsonString s.state) ++
      member "addr" (s.addr.map jsonString) ++
      member "engineVersion" (s.engineVersion.map jsonString) ++
      member "nanoCpus" (s.nanoCpus.map toString) ++
      member "memoryBytes" (s.memoryBytes.map toString)) ++ "\x7d"

def nodeFingerprint (n : DGNode) : String :=
  let ports := join ";" ((n.ports.getD []).map fun p =>
    s!"{hostPorts p}>{containerPorts p}/{orEmpty p.protocol}")
  s!"{n.id}:{orEmpty n.status}:{orEmpty n.image}:{orEmpty n.networkId}:{ports}:{orEmpty n.stack}:" ++
    serviceKey n ++ ":" ++ jsonSwarmNode n.swarmNode

def snapshotFingerprint (nodes : List DGNode) (edges : List DGEdge) : String :=
  let nk := join "," (jsSort (nodes.map nodeFingerprint))
  let ek := join "," (jsSort (edges.map DGEdge.id))
  nk ++ "|" ++ ek

end Dockgraph.Frontend
