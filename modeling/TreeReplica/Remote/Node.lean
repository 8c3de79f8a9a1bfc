/-
What the remote tree shows: nodes, and the events that report how nodes
change. A node with children is a container; one without is a leaf. A
leaf is kept as a file, a container as a directory.
-/
import TreeReplica.Disk.Entry

namespace TreeReplica

/-- A node as it was when an event reported it. -/
structure Node where
  path : String
  data : Option Bytes := none
  childCount : Int := 0
  /-- Milliseconds since the epoch. -/
  modifiedAt : Int := 0
  deriving DecidableEq, Repr, Inhabited

namespace Node

/-- A container has children. -/
def isContainer (n : Node) : Bool := 0 < n.childCount

/-- The bytes of a node; a node without data has none. -/
def bytes (n : Node) : Bytes := n.data.getD []

/-- Has the node at least one byte of data? -/
def hasData (n : Node) : Bool := !n.bytes.isEmpty

end Node

/-- The kinds of event. The last one says that every node present at the
start has been reported. -/
inductive EventKind
  | added
  | updated
  | removed
  | initialized
  deriving DecidableEq, Repr, Inhabited

/-- The word for a kind of event. -/
def EventKind.word : EventKind → String
  | .added => "NODE_ADDED"
  | .updated => "NODE_UPDATED"
  | .removed => "NODE_REMOVED"
  | .initialized => "INITIALIZED"

/-- One report of the remote tree. -/
structure Event where
  kind : EventKind
  node : Option Node := none
  deriving DecidableEq, Repr, Inhabited

namespace Event

/-- The path of the node that the event is about. -/
def path (e : Event) : Option String := e.node.map (·.path)

/-- An event in messages: its kind, and the node's path if it has one. -/
def text (e : Event) : String :=
  match e.node with
  | none => e.kind.word
  | some n => e.kind.word ++ " " ++ n.path

instance : ToString Event := ⟨text⟩

end Event

end TreeReplica
