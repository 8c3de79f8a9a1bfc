/-
What a connection to the remote tree can fail with. The kinds matter only
through three questions: is it one of the client's own failures, does it
count as a failure to connect, and does it say that a node is gone.
-/
namespace TreeReplica.Remote

/-- The kinds of failure that reach the program from a connection, or
from a listener called by it. -/
inductive FaultKind
  | timeout
  | client
  | noNode
  | connectionLoss
  | noAuth
  | runtime
  | os
  | watcher
  | startup
  | protocol
  deriving DecidableEq, Repr, Inhabited

/-- A failure with its message. -/
structure Fault where
  kind : FaultKind
  message : String
  deriving DecidableEq, Repr, Inhabited

/-- Is it one of the client's own failures? A time-out is not: it comes
from the machinery below the client. -/
def FaultKind.isClient : FaultKind → Bool
  | .client | .noNode | .connectionLoss | .noAuth => true
  | _ => false

/-- Does it count as a failure to connect? -/
def FaultKind.isUnreachable (k : FaultKind) : Bool :=
  k.isClient || k = .timeout

end TreeReplica.Remote
