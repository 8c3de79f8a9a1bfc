/-
The layout that a replica of a list of nodes holds once it is in line
with them. A node whose path has no place in the replica is left out, and
the reason is kept beside the layout.
-/
import TreeReplica.Layout.Basic
import TreeReplica.Remote.Node
import TreeReplica.Remote.Path

namespace TreeReplica.Layout

/-- The root under which expected layouts are drawn: the empty path. -/
def drawnAt : Path := ⟨.here, []⟩

/-- Enter a node that is kept at `place`. A container and the root are
directories, the root without an entry of its own; their data goes to
the payload slot. -/
def enter (l : Layout) (node : Node) (place : Path) (payload : String) :
    Layout :=
  if node.isContainer || place = drawnAt then
    let l := if place = drawnAt then l else l.put place.text .directory
    if node.hasData then
      l.put (Remote.payloadSlot place payload).text (.file node.bytes)
    else l
  else l.put place.text (.file node.bytes)

/-- Enter every node, and collect the rejections of those that have no
place. -/
def expectedFrom (base payload : String) :
    Layout → List Node → Layout × List Remote.Rejection
  | l, [] => (l, [])
  | l, node :: rest =>
      match Remote.toLocal node.path drawnAt base payload with
      | .ok place => expectedFrom base payload (l.enter node place payload) rest
      | .error rejection =>
          let (l', rejections) := expectedFrom base payload l rest
          (l', rejection :: rejections)

/-- The layout that a replica of `nodes` holds, and why nodes are
missing from it. -/
def expected (nodes : List Node) (base payload : String) :
    Layout × List Remote.Rejection :=
  expectedFrom base payload {} nodes

/-- How a missing node is reported. -/
def notKept (rejection : Remote.Rejection) : String :=
  s!"Not mirrored: {rejection.message}"

end TreeReplica.Layout
