/-
Work on a disk. It reads and changes a host, the disk together with the
log, and may stop with a failure; what was done before it stopped stays
done. Nobody else works on the disk in between.

`ask` and `act` make work of the calls of a disk, `say` reports. The type
of work names its failures, and `recast` changes them, so that a caller
sees from the type what can still get past a handler.
-/
import TreeReplica.Disk.Call
import TreeReplica.Log

namespace TreeReplica

/-- What work is done on: a disk and the reports so far, and the numbers of
the names that the system draws for staging directories. Its choice is
arbitrary. It is read off the number of reports, and every relocation is
reported before it starts, so one `draw` stands for any row of choices. -/
structure Host where
  disk : Disk
  log : Log := []
  draw : Nat → Nat := fun _ => 0
  deriving Inhabited

/-- Work on a host that may stop with a failure of type `ε`. -/
abbrev Work (ε α : Type) : Type := EStateM ε Host α

namespace Work

variable {ε ε' α : Type}

/-- Ask the disk. -/
def ask (question : Disk → Except Fault α) : Work Fault α := fun h =>
  match question h.disk with
  | .ok a => .ok a h
  | .error e => .error e h

/-- Change the disk. -/
def act (change : Disk → Except Fault Disk) : Work Fault Unit := fun h =>
  match change h.disk with
  | .ok d => .ok () { h with disk := d }
  | .error e => .error e h

/-- Report. -/
def say (level : Level) (text : String) : Work ε Unit := fun h =>
  .ok () { h with log := h.log ++ [⟨level, text⟩] }

/-- The same work with its failures renamed. -/
def recast (f : ε → ε') (work : Work ε α) : Work ε' α := fun h =>
  match work h with
  | .ok a h' => .ok a h'
  | .error e h' => .error (f e) h'

/-- Do `work`; if it stops, go on with what `handler` makes of the
failure, from where the work stopped. -/
def rescue (work : Work ε α) (handler : ε → Work ε' α) : Work ε' α :=
  fun h =>
    match work h with
    | .ok a h' => .ok a h'
    | .error e h' => handler e h'

/-- Do `work`, then `last` whether or not the work stopped. A failure of
`last` counts instead of one of the work. -/
def ensuring (work : Work ε α) (last : Work ε Unit) : Work ε α := fun h =>
  match work h with
  | .ok a h' =>
      match last h' with
      | .ok _ h'' => .ok a h''
      | .error e h'' => .error e h''
  | .error e h' =>
      match last h' with
      | .ok _ h'' => .error e h''
      | .error e' h'' => .error e' h''

/-- Take away a directory with all that it holds. What it holds goes
first, and then the path to it is walked again: it is lost if it led
through what is gone. -/
def removeTree (p : Path) : Work Fault Unit := do
  act (·.emptyTree p)
  act (·.removeDirectory p)

end Work

-- ============================================= the calls of a disk

namespace Disk

/-- Take a file or link away if it is there. -/
def removeFileIfAny (d : Disk) (p : Path) : Except Fault Disk :=
  match d.removeFile p with
  | .error (.system (.refused .noEntry _)) => .ok d
  | other => other

/-- Make a directory unless one is there. -/
def ensureDirectory (d : Disk) (p : Path) : Except Fault Disk :=
  match d.makeDirectory p with
  | .error (.system e) =>
      match d.isDirectory p with
      | .ok true => .ok d
      | .ok false => .error (.system e)
      | .error f => .error f
  | other => other

end Disk

end TreeReplica
