import Dockgraph.Frontend.DeltaUtils

/-! The client's connection state (`hooks/useDockGraph.ts`, `utils/protocol.ts`). State updates are
queued functions of the previous state, applied in order. -/
namespace Dockgraph.Frontend

def protocolVersion : Nat := 3

inductive ProtocolAction
  | accept
  | reload
  | ignore
  deriving DecidableEq

/-- The session's reload marker; `none` where session storage is unavailable or fails. -/
abbrev Session := Option (Option String)

def protocolAction (version : Nat) (storage : Session) : ProtocolAction × Session :=
  if version = protocolVersion then (.accept, storage.map fun _ => none)
  else match storage with
    | none => (.ignore, none)
    | some marker =>
      if marker = some (toString version) then (.ignore, storage)
      else (.reload, some (some (toString version)))

/-- The `data` of a message; the arrays of a snapshot may be missing. -/
inductive MessageData
  | snapshot (nodes : Option (List DGNode)) (edges : Option (List DGEdge))
  | delta (delta : DeltaUpdate)
  | other

structure WireMessage where
  type : String
  version : Nat
  data : Option MessageData := none

/-- The hook's state with the refs that outlive a connection. -/
structure DockGraph where
  nodes : List DGNode := []
  edges : List DGEdge := []
  connected : Bool := false
  ready : Bool := false
  retry : Nat := 0
  fingerprint : String := ""
  session : Session := some none

namespace DockGraph

def graph (s : DockGraph) : Graph := ⟨s.nodes, s.edges⟩

def applySnapshot (s : DockGraph) (nodes : List DGNode) (edges : List DGEdge) : DockGraph :=
  let fp := snapshotFingerprint nodes edges
  if fp = s.fingerprint then s
  else { s with fingerprint := fp, nodes, edges, ready := true }

def applyDelta (s : DockGraph) (delta : DeltaUpdate) : DockGraph :=
  let next := Frontend.applyDelta s.graph delta
  { s with nodes := next.nodes, edges := next.edges, ready := true }

/-- `window.location.reload()`: only the session survives. -/
def reload (session : Session) : DockGraph := { session }

def onOpen (s : DockGraph) : DockGraph := { s with retry := 0, connected := true }

def onClose (s : DockGraph) : DockGraph := { s with connected := false, retry := s.retry + 1 }

/-- `none` is a text that is not JSON, or lacks a type or a version. -/
def onMessage (s : DockGraph) (msg : Option WireMessage) : DockGraph :=
  match msg with
  | none => s
  | some msg =>
    if msg.type = "auth_expired" then reload s.session
    else
      let (action, session) := protocolAction msg.version s.session
      let s := { s with session }
      match action with
      | .reload => reload session
      | .ignore => s
      | .accept =>
        match msg.data with
        | none => s
        | some d =>
          if msg.type = "snapshot" then
            match d with
            | .snapshot (some nodes) (some edges) => s.applySnapshot nodes edges
            | _ => s
          else if msg.type = "delta" then
            match d with
            | .delta delta => s.applyDelta delta
            -- Data of another shape has none of the delta's properties.
            | _ => s.applyDelta {}
          else s

end DockGraph

inductive Event
  | opened
  | message (msg : Option WireMessage)
  | closed

def DockGraph.handle (s : DockGraph) : Event → DockGraph
  | .opened => s.onOpen
  | .message msg => s.onMessage msg
  | .closed => s.onClose

end Dockgraph.Frontend
