import Dockgraph.State.Graph
import Dockgraph.Library.Replica

/-!
# The graph messages of a stream

The snapshots and deltas among the messages of a channel or a client queue, as messages to
a replica of the merged graph.
-/
namespace Dockgraph.Collector

open Replica

abbrev GraphMsg := Msg GraphSnapshot DeltaUpdate

def StateMessage.graphMsg (msg : StateMessage) : Option GraphMsg :=
  if msg.type = msgTypeSnapshot then msg.snapshot.map .reset
  else if msg.type = msgTypeDelta then msg.delta.map (.change msg.base)
  else none

def WireMessage.graphMsg (wire : WireMessage) : Option GraphMsg :=
  match wire.data with
  | .snapshot s => some (.reset s)
  | .delta d base => some (.change base d)
  | .stats _ => none

/-- The graph a reader holds that started with none. -/
abbrev replayed (msgs : List GraphMsg) : GraphSnapshot := replay GraphSnapshot.patch {} msgs

end Dockgraph.Collector
