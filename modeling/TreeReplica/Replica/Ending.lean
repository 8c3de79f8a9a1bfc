/-
What a run needs to know, what is known of it at the end, and the ways to
get there.

A run ends when a stop is asked for, when the subscription fails, when
applying an event stops with a failure, or, if it was told to, when the
initial events have been applied. Only in the last case is the output
directory kept.
-/
import TreeReplica.Remote.Fault
import TreeReplica.Replica.Apply
import TreeReplica.Replica.Output

namespace TreeReplica.Run

open Work

-- ============================================================ settings

/-- What a run needs to know. -/
structure Settings where
  out : String := "."
  base : String := "/"
  payload : String := defaultPayload
  force : Bool := false
  exitAfterSync : Bool := false
  deriving DecidableEq, Repr, Inhabited

/-- The output directory of a run. -/
def Settings.outPath (s : Settings) : Path := Path.ofString s.out

/-- The replica that a run keeps. -/
def Settings.replica (s : Settings) : Replica :=
  { root := s.outPath, base := s.base, payload := s.payload }

-- ============================================================= results

/-- What is asked of the source of events. -/
inductive Request
  | subscribe (base : String)
  | unsubscribe
  deriving DecidableEq, Repr, Inhabited

/-- What a run can stop with instead of a result. -/
inductive Failure
  | output (f : Output.Failure)
  | argument (e : ArgumentError)
  | remote (f : Remote.Fault)
  deriving DecidableEq, Repr, Inhabited

/-- The wording of what a run stopped with. -/
def Failure.message : Failure → String
  | .output (.refused r) => r.message
  | .output (.disk f) => f.message
  | .argument e => e.message
  | .remote f => f.message

/-- What is known about a run beside its result. -/
structure Account where
  synced : Bool := false
  requests : List Request := []
  /-- The disk when a stop was asked for, the subscription being made. -/
  atStop : Option Disk := none
  deriving Inhabited

/-- How a run ended: with its exit code or a failure, on a host. -/
structure Report where
  result : Except Failure Nat
  account : Account
  host : Host

-- ============================================================= applying

/-- What ends the application of events: the initial events are complete,
and the run was told to exit then, or the application of one stopped. -/
inductive Conclusion
  | synced
  | halted (halt : Halt)
  deriving DecidableEq, Repr, Inhabited

/-- How far the application of a row of events got: whether it ended, the
events that are left, whether the initial events were seen to be complete,
and the host. -/
structure Progress where
  conclusion : Option Conclusion := none
  queue : List Event := []
  synced : Bool
  host : Host

/-- What is reported when a run ends because it is in sync. -/
def exiting : String := s!"{EventKind.initialized.word}, exiting"

/-- Apply events in order, up to the first that ends the run. -/
def applyAll (s : Settings) : List Event → Bool → Host → Progress
  | [], synced, host => { synced, host }
  | event :: queue, synced, h =>
      match s.replica.apply event h with
      | .error halt host =>
          { conclusion := some (.halted halt), queue, synced, host }
      | .ok _ host =>
          if event.kind = .initialized then
            if s.exitAfterSync then
              { conclusion := some .synced, queue, synced := true
                host := { host with
                  log := host.log ++ [⟨.info, exiting⟩] } }
            else applyAll s queue true host
          else applyAll s queue synced host

-- ============================================================== endings

/-- What is left to do when a run is about to end: the exit code or failure
so far, and whether the output directory is kept. -/
structure Ending where
  result : Except Failure Nat
  keep : Bool := false

/-- The wording of a broken contract. -/
def broken (message : String) : String :=
  s!"Change stream violated its ordering contract: {message}"

/-- The ending of a run whose stop was asked for. -/
def stopped (h : Host) : Ending × Host :=
  ({ result := .ok 0 },
    { h with log := h.log ++ [⟨.info, "Stop requested"⟩] })

/-- The ending of a run whose stream of events, or whose source, broke
the contract or could not be watched: it is reported, and the exit code
is one. -/
def reported (text : String) (h : Host) : Ending × Host :=
  ({ result := .ok 1 }, { h with log := h.log ++ [⟨.error, text⟩] })

/-- The ending of a run whose subscription failed. -/
def subscriptionFailed (fault : Remote.Fault) (h : Host) : Ending × Host :=
  match fault.kind with
  | .protocol => reported (broken fault.message) h
  | .watcher => reported fault.message h
  | _ => ({ result := .error (.remote fault) }, h)

/-- The ending of a run whose application of events ended. -/
def concluded (s : Settings) : Conclusion → Host → Ending × Host
  | .synced, h => ({ result := .ok 0, keep := s.exitAfterSync }, h)
  | .halted (.violation v), h => reported (broken v.message) h
  | .halted (.argument e), h => ({ result := .error (.argument e) }, h)

end TreeReplica.Run
