/-
Repair of parents. Before a node can be kept at a path, every ancestor
below the root has to be a directory. Events may arrive out of order, so
an ancestor can be missing, or can still be the file of a leaf.

`ensureChain` makes the ancestors, from the root down. An empty file in
the way is dropped, since it says nothing; a file with bytes is kept as
the payload of the directory that takes its place. `relocate` does the
exchange through a staging directory beside the file and puts the file
back if a step of it fails.
-/
import TreeReplica.Disk.Work
import TreeReplica.Remote.Path

namespace TreeReplica.Repair

open Work

-- ============================================================ failures

/-- Why an ancestor could not be made a directory. -/
inductive Cause
  | outside (target root : Path)
  | blocked (ancestor : Path) (reason : SystemError)
  | notDirectory (target : Path)
  deriving DecidableEq, Repr, Inhabited

/-- The wording of a cause. -/
def Cause.message : Cause → String
  | .outside target root =>
      s!"{target} is not inside the mirror root {root}"
  | .blocked ancestor reason =>
      s!"cannot make {ancestor} a directory: {reason.message}"
  | .notDirectory target => s!"{target} is still not a directory"

/-- How a repair stops: with a cause, or with a fault that is not its
own. -/
inductive Failure
  | unusable (cause : Cause)
  | disk (fault : Fault)
  deriving DecidableEq, Repr, Inhabited

-- ========================================================== relocation

/-- Put a file that was moved away back where it was, if it is still
there to be put back. -/
def putBack (path moved : Path) : Work Fault Unit := do
  if ← ask (·.reaches moved) then
    if ← ask (·.isDirectory path) then
      act (·.removeDirectory path)
    act (·.move moved path)

/-- Drop the staging directory, or report what had to be left in it. -/
def closeStaging (path staging moved : Path) : Work Fault Unit := do
  if ← ask (·.reaches moved) then
    say .error s!"Left relocated payload for {path} at {moved}"
  else
    act (·.removeDirectory staging)

/-- Make a new staging directory below `parent`. -/
def openStaging (parent : Path) : Work Fault Path := fun h =>
  match h.disk.makeStaging parent (h.draw h.log.length) with
  | .ok (staging, d) => .ok staging { h with disk := d }
  | .error e => .error e h

/-- Exchange the file at `path` for a directory that holds the file as
its payload. -/
def relocate (path : Path) (payload : String) : Work Fault Unit := do
  let staging ← openStaging path.parent
  let moved := staging.child path.name
  let exchange : Work Fault Unit := do
    act (·.move path moved)
    act (·.makeDirectory path)
    act (·.move moved (Remote.payloadSlot path payload))
  let attempt := rescue exchange fun fault => do
    match fault with
    | .system _ => putBack path moved
    | .argument _ => pure ()
    throw fault
  ensuring attempt (closeStaging path staging moved)

-- =========================================================== the chain

/-- Make one ancestor a directory; its own parent is one already. -/
def makeAncestor (payload : String) (current : Path) : Work Fault Unit := do
  if ← ask (·.isDirectory current) then return
  if (← get).disk.occupied current then
    if (← ask (·.size current)) = 0 then
      act (·.removeFile current)
      act (·.makeDirectory current)
    else
      say .info
        s!"Converting {current} to a directory, keeping its data as payload"
      relocate current payload
  else
    act (·.makeDirectory current)

/-- Make the ancestors named by the parts below `start`, one below the
other. -/
def makeBelow (payload : String) : Path → List String → Work Failure Unit
  | _, [] => pure ()
  | start, part :: rest => do
      let current := start.child part
      recast
        (fun fault => match fault with
          | .system e => .unusable (.blocked current e)
          | .argument e => .disk (.argument e))
        (makeAncestor payload current)
      makeBelow payload current rest

/-- Make every ancestor from `root` down to `target` a directory. The
root itself is taken to be one. -/
def ensureChain (target root : Path) (payload : String) :
    Work Failure Unit := do
  if target = root then return
  match target.relativeTo? root with
  | none => throw (.unusable (.outside target root))
  | some parts =>
      makeBelow payload root parts
      if !(← recast .disk (ask (·.isDirectory target))) then
        throw (.unusable (.notDirectory target))

end TreeReplica.Repair
