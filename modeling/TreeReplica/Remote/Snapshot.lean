/-
Reading a whole remote subtree. A server answers two requests about a
path: the node's data and status, and the names of its children. A node
that is gone when it is read is passed over, and any other failure ends
the walk.

The children of a node are read last name first. On its way down a walk
that ends never meets a path twice, so it goes no deeper than there are
served nodes; that bound is what makes `snapshot` end for every server.
-/
import TreeReplica.Remote.Fault
import TreeReplica.Remote.Node

namespace TreeReplica.Remote

/-- The requests of a snapshot. -/
inductive Read
  | data (path : String)
  | children (path : String)
  deriving DecidableEq, Repr, Inhabited

/-- What a server holds for one path, and how its two answers fail if
they do. -/
structure Served where
  path : String
  data : Option Bytes
  names : List String
  childCount : Int
  modifiedAt : Int
  dataFault : Option Fault := none
  childrenFault : Option Fault := none
  deriving DecidableEq, Repr, Inhabited

/-- A server, as the nodes that it serves. -/
abbrev Server := List Served

/-- The node served at a path. -/
def Server.find? (server : Server) (path : String) : Option Served :=
  List.find? (fun node => node.path = path) server

/-- The answer to one visit: the requests that were made, and the node
with the names of its children, or the failure. -/
structure Visit where
  reads : List Read
  outcome : Except Fault (Node × List String)

/-- Read one path. A path that is not served answers like a node that is
gone. -/
def Server.visit (server : Server) (path : String) : Visit :=
  match server.find? path with
  | none => ⟨[.data path], .error ⟨.noNode, ""⟩⟩
  | some node =>
      match node.dataFault, node.childrenFault with
      | some fault, _ => ⟨[.data path], .error fault⟩
      | none, some fault => ⟨[.data path, .children path], .error fault⟩
      | none, none =>
          ⟨[.data path, .children path],
            .ok (⟨path, node.data, node.childCount, node.modifiedAt⟩,
              node.names)⟩

/-- A path without the slashes at its end. -/
def withoutSlashes (path : String) : String :=
  String.ofList (path.toList.reverse.dropWhile (· = '/')).reverse

/-- The path of a child. -/
def childPath (path name : String) : String :=
  withoutSlashes path ++ "/" ++ name

-- ============================================================ the walk

/-- What a walk has done: its requests and the nodes it read, both in
order, and the failure that ended it. -/
structure Walk where
  reads : List Read := []
  nodes : List Node := []
  failure : Option Fault := none
  deriving DecidableEq, Repr, Inhabited

/-- One walk after the other; a failed walk is the last. -/
def Walk.andThen (first second : Walk) : Walk :=
  match first.failure with
  | some _ => first
  | none =>
      { reads := first.reads ++ second.reads
        nodes := first.nodes ++ second.nodes
        failure := second.failure }

/-- Walk from each of some paths in turn. -/
def walkEach (walk : String → Walk) : List String → Walk
  | [] => {}
  | path :: rest => (walk path).andThen (walkEach walk rest)

/-- Walk from `path`, at most `depth` levels down. -/
def walkFrom (server : Server) : Nat → String → Walk
  | 0, _ => {}
  | depth + 1, path =>
      let visit := server.visit path
      match visit.outcome with
      | .error fault =>
          { reads := visit.reads
            failure := if fault.kind = .noNode then none else some fault }
      | .ok (node, names) =>
          ({ reads := visit.reads, nodes := [node] } : Walk).andThen
            (walkEach (walkFrom server depth)
              (names.map (childPath path)).reverse)

/-- Read every node of the subtree at `path`. -/
def snapshot (server : Server) (path : String) : Walk :=
  walkFrom server (server.length + 1) path

end TreeReplica.Remote
