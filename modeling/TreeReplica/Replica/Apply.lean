/-
Applying events to a local replica, one at a time.

A leaf is kept as a file with the node's bytes and time. A container is
kept as a directory whose payload slot holds the container's own bytes,
if it has any. The root of the replica is always a directory, whatever
the node behind it is.

`Replica.apply` stops only when the stream of events breaks its contract,
or when a path or time cannot be passed to the system at all. Everything
the system refuses is reported and drops the rest of that event, since a
later event for the same path tries again.
-/
import TreeReplica.Remote.Node
import TreeReplica.Replica.Repair

namespace TreeReplica

open Work

-- ============================================================ failures

/-- How a stream of events breaks its contract: a node event without a
node, or an added node where the other kind of entry stands. -/
inductive Violation
  | withoutNode (kind : EventKind)
  | occupied (isContainer : Bool) (remote : String) (place : Path)
  deriving DecidableEq, Repr, Inhabited

/-- The wording of a violation. -/
def Violation.message : Violation → String
  | .withoutNode kind => s!"{kind.word} event without node data"
  | .occupied isContainer remote place =>
      let noun := if isContainer then "container" else "leaf"
      s!"{EventKind.added.word} for {noun} {remote} but {place} already exists"

/-- What ends the application of events. -/
inductive Halt
  | violation (v : Violation)
  | argument (e : ArgumentError)
  deriving DecidableEq, Repr, Inhabited

/-- The wording of what ended the application. -/
def Halt.message : Halt → String
  | .violation v => v.message
  | .argument e => e.message

/-- What stops the application of one event. -/
inductive Setback
  | violation (v : Violation)
  | repair (f : Repair.Failure)
  deriving DecidableEq, Repr, Inhabited

/-- A fault of the disk during the application of an event. -/
def Setback.disk (f : Fault) : Setback := .repair (.disk f)

-- ============================================================= replica

/-- The name under which containers keep their own data by default. -/
def defaultPayload : String := "zookeeper"

/-- A local replica: the directory it lives in, the remote path it stands
for, and the payload name. -/
structure Replica where
  root : Path
  base : String := "/"
  payload : String := defaultPayload
  deriving DecidableEq, Repr, Inhabited

namespace Replica

/-- Write a file with its time. -/
def writeFile (target : Path) (content : Bytes) (modifiedAt : Int) :
    Work Fault Unit := do
  act (·.write target content)
  act (·.setTime target modifiedAt)

/-- Take a directory away, with whatever is left in it. -/
def removeStale (path : Path) : Work Fault Unit := do
  if (← ask (·.list path)).isEmpty then
    act (·.removeDirectory path)
  else
    say .info s!"Removing stale entries under {path}"
    removeTree path

/-- An added node may already be there, made by repair for an earlier
child or by the same event before; an entry of the other kind may not. -/
def checkAdded (r : Replica) (node : Node) (path : Path) :
    Work Setback Unit := do
  if path = r.root || !(← get).disk.occupied path then return
  let same ← recast .disk <|
    if node.isContainer then ask (·.isDirectory path)
    else ask (·.isFile path)
  if !same then
    throw (.violation (.occupied node.isContainer node.path path))

/-- Make way for an updated node whose entry is of the other kind. -/
def convertKind (r : Replica) (node : Node) (path : Path) :
    Work Fault Unit := do
  if path = r.root then return
  if (← ask (·.isDirectory path)) && !node.isContainer then
    act (·.removeFileIfAny (Remote.payloadSlot path r.payload))
    removeStale path
  else if (← ask (·.isFile path)) && node.isContainer then
    act (·.removeFile path)

/-- Take away what is kept for a removed node. The root stays, without
its payload. -/
def remove (r : Replica) (path : Path) : Work Fault Unit := do
  if ← ask (·.isDirectory path) then
    act (·.removeFileIfAny (Remote.payloadSlot path r.payload))
    if path ≠ r.root then removeStale path
  else if (← get).disk.occupied path then
    act (·.removeFile path)
  else
    say .debug s!"{path} already absent"

/-- Keep a node at its path. -/
def materialize (r : Replica) (node : Node) (path : Path) :
    Work Repair.Failure Unit := do
  if path ≠ r.root then
    Repair.ensureChain path.parent r.root r.payload
  recast .disk do
    if !node.isContainer && path ≠ r.root then
      writeFile path node.bytes node.modifiedAt
    else
      if path ≠ r.root then act (·.ensureDirectory path)
      let slot := Remote.payloadSlot path r.payload
      if node.hasData then writeFile slot node.bytes node.modifiedAt
      else act (·.removeFileIfAny slot)

/-- Bring the entry at `path` in line with an event about `node`. -/
def settle (r : Replica) (kind : EventKind) (node : Node) (path : Path) :
    Work Setback Unit := do
  match kind with
  | .added =>
      r.checkAdded node path
      recast .repair (r.materialize node path)
  | .updated =>
      recast .disk (r.convertKind node path)
      recast .repair (r.materialize node path)
  | .removed => recast .disk (r.remove path)
  | .initialized => pure ()

/-- Apply one event. -/
def apply (r : Replica) (event : Event) : Work Halt Unit := do
  say .info event.text
  if event.kind = .initialized then return
  match event.node with
  | none => throw (.violation (.withoutNode event.kind))
  | some node =>
      match Remote.toLocal node.path r.root r.base r.payload with
      | .error rejection =>
          say .info s!"Skipping {event}: {rejection.message}"
      | .ok path =>
          rescue (r.settle event.kind node path) fun setback =>
            match setback with
            | .violation v => throw (.violation v)
            | .repair (.unusable cause) =>
                say .error
                  s!"Failed to repair parents for {event}: {cause.message}"
            | .repair (.disk (.system e)) =>
                say .error s!"Failed to apply {event}: {e.message}"
            | .repair (.disk (.argument e)) => throw (.argument e)

end Replica

end TreeReplica
