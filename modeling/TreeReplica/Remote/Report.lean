/-
What a cache of the remote tree reports: changes of nodes and of the
connection. Only changes of nodes become events; a change of the
connection is worth a warning, and a report of an unknown kind nothing.
-/
import TreeReplica.Remote.Node

namespace TreeReplica.Remote

/-- The ways in which the connection behind a cache changes. -/
inductive Connection
  | suspended
  | reconnected
  | lost
  deriving DecidableEq, Repr, Inhabited

/-- The word for a change of the connection. -/
def Connection.word : Connection → String
  | .suspended => "suspended"
  | .reconnected => "reconnected"
  | .lost => "lost"

/-- The kinds of report. -/
inductive ReportKind
  | event (kind : EventKind)
  | connection (change : Connection)
  | unknown
  deriving DecidableEq, Repr, Inhabited

/-- The numbers that stand for the kinds of report. -/
def ReportKind.ofNumber (n : Int) : ReportKind :=
  if n = 0 then .event .added
  else if n = 1 then .event .updated
  else if n = 2 then .event .removed
  else if n = 3 then .connection .suspended
  else if n = 4 then .connection .reconnected
  else if n = 5 then .connection .lost
  else if n = 6 then .event .initialized
  else .unknown

/-- The status of a node. -/
structure Status where
  childCount : Int
  modifiedAt : Int
  deriving DecidableEq, Repr, Inhabited

/-- A node in a report; its status may be missing. -/
structure Subject where
  path : String
  data : Option Bytes
  status : Option Status
  deriving DecidableEq, Repr, Inhabited

/-- One report. -/
structure Report where
  kind : ReportKind
  subject : Option Subject := none
  deriving DecidableEq, Repr, Inhabited

/-- The node that a report is about; without a status it counts as a leaf
of the epoch. -/
def Subject.node (s : Subject) : Node :=
  { path := s.path
    data := s.data
    childCount := (s.status.map (·.childCount)).getD 0
    modifiedAt := (s.status.map (·.modifiedAt)).getD 0 }

/-- The event that a report stands for, if it stands for one. The last of
the initial events never has a node. -/
def Report.event? (r : Report) : Option Event :=
  match r.kind with
  | .event .initialized => some { kind := .initialized }
  | .event kind => some { kind, node := r.subject.map (·.node) }
  | _ => none

end TreeReplica.Remote
