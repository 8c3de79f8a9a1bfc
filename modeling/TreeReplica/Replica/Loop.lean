/-
The loop of a run, turn by turn.

Three things go on beside the main task: a thread asks for the
subscription, a consumer takes events from a queue and applies them, and a
stopper waits for a stop to be asked for. The main task waits until one of
the last two has ended or the subscription has failed; then it cancels
what is left, gathers all three, gives the subscription up on another
thread, and takes the output directory away unless it is kept.

Tasks only go on when their turn comes. Turns are taken from one line, in
the order in which they were asked for, and what comes from outside gets
its place at the end of that line as well. `Step` leaves open only when it
comes: something may arrive, the next turn may be taken, or the source may
have been given up.
-/
import TreeReplica.Replica.Ending

namespace TreeReplica.Run

-- =============================================================== states

/-- What arrives from outside: an event, the end of the call that
subscribes, or the wish that the run stops. -/
inductive Arrival
  | event (e : Event)
  | subscribed (failure : Option Remote.Fault)
  | stop
  deriving DecidableEq, Repr, Inhabited

/-- What the main task waits for at first. -/
inductive Awaited
  | subscription
  | consumer
  | stopper
  deriving DecidableEq, Repr, Inhabited

/-- What is in the line: something that arrived, a task whose turn it will
be, or a word to the main task, that something has ended while it waits
for the first end, or while it gathers all. -/
inductive Turn
  | arrival (a : Arrival)
  | consumer
  | stopper
  | finished (what : Awaited)
  | gathered
  | main
  deriving DecidableEq, Repr, Inhabited

/-- A task beside the main one. It waits for what it needs, or has a turn
in the line, to go on or to learn that it was cancelled. -/
inductive Task (α : Type)
  | waiting
  | ready
  | cancelling
  | ended (result : α)
  | cancelled
  deriving Inhabited

namespace Task

variable {α : Type}

/-- Cancel a task. One that ended stays as it is. -/
def cancel : Task α → Task α
  | .waiting => .cancelling
  | .ready => .cancelling
  | task => task

/-- The turn that a task asks for when it is cancelled; one that is ready
has it already. -/
def cancelTurn (own : Turn) : Task α → List Turn
  | .waiting => [own]
  | _ => []

/-- The word that a task is gathered, if there is nothing to wait for. -/
def gatherTurn : Task α → List Turn
  | .ended _ => [.gathered]
  | .cancelled => [.gathered]
  | _ => []

end Task

/-- What has become of the subscription. -/
inductive Subscription
  | pending
  | settled (failure : Option Remote.Fault)
  | cancelled
  deriving DecidableEq, Repr, Inhabited

/-- How far the main task is: it waits for the first end, or was told of
one; it gathers, with so many to come, or has gathered all; the source is
being given up, or is; it is over. -/
inductive Phase
  | waiting
  | woken
  | gathering (ending : Ending) (left : Nat)
  | gathered (ending : Ending)
  | leaving (ending : Ending)
  | left (ending : Ending)
  | over (result : Except Failure Nat)

/-- A run that has started. `pending` is what will still arrive. -/
structure Loop where
  pending : List Arrival
  line : List Turn := []
  queue : List Event := []
  consumer : Task Conclusion := .waiting
  stopper : Task Unit := .waiting
  subscription : Subscription := .pending
  phase : Phase := .waiting
  account : Account
  host : Host

/-- A run that starts on a host: the call that subscribes is made, and both
tasks wait before anything arrives. -/
def Loop.start (s : Settings) (script : List Arrival) (h : Host) : Loop :=
  { pending := script, account := { requests := [.subscribe s.base] }
    host := h }

namespace Loop

-- ============================================================= arrivals

/-- Put an event in the queue. A consumer that waits for one gets its
turn. -/
def put (e : Event) (x : Loop) : Loop :=
  match x.consumer with
  | .waiting =>
      { x with
        queue := x.queue ++ [e], consumer := .ready
        line := x.line ++ [.consumer] }
  | _ => { x with queue := x.queue ++ [e] }

/-- The call that subscribes has come to its end. Only the first end counts,
and none after the subscription was cancelled. -/
def settle (failure : Option Remote.Fault) (x : Loop) : Loop :=
  match x.subscription with
  | .pending =>
      { x with
        subscription := .settled failure
        line := x.line ++ [.finished .subscription] }
  | _ => x

/-- The account when a stop is asked for: it takes note of the disk. -/
def noteStop (x : Loop) : Account :=
  if x.subscription = .settled none then
    { x.account with atStop := some x.host.disk }
  else x.account

/-- A stop is asked for. A stopper that waits for that gets its turn. -/
def stop (x : Loop) : Loop :=
  match x.stopper with
  | .waiting =>
      { x with
        account := x.noteStop, stopper := .ready
        line := x.line ++ [.stopper] }
  | _ => { x with account := x.noteStop }

/-- What arrived takes effect. -/
def arrive : Arrival → Loop → Loop
  | .event e => put e
  | .subscribed failure => settle failure
  | .stop => stop

-- ============================================================== the tasks

/-- The consumer has made a round: it waits again, or has ended. -/
def round (p : Progress) (x : Loop) : Loop :=
  { x with
    queue := p.queue, host := p.host
    account := { x.account with synced := p.synced }
    consumer := match p.conclusion with
      | none => .waiting
      | some c => .ended c
    line := match p.conclusion with
      | none => x.line
      | some _ => x.line ++ [.finished .consumer] }

/-- The consumer's turn. It applies what is in the queue. -/
def consume (s : Settings) (x : Loop) : Loop :=
  match x.consumer with
  | .ready => x.round (applyAll s x.queue x.account.synced x.host)
  | .cancelling =>
      { x with consumer := .cancelled, line := x.line ++ [.gathered] }
  | _ => x

/-- The stopper's turn, which is its end. -/
def endStopper (x : Loop) : Loop :=
  match x.stopper with
  | .ready =>
      { x with
        stopper := .ended (), line := x.line ++ [.finished .stopper] }
  | .cancelling =>
      { x with stopper := .cancelled, line := x.line ++ [.gathered] }
  | _ => x

-- ========================================================== the main task

/-- Something has ended: the main task gets its turn if it waits for
that. -/
def wake (x : Loop) : Loop :=
  match x.phase with
  | .waiting => { x with phase := .woken, line := x.line ++ [.main] }
  | _ => x

/-- One more is gathered. The main task gets its turn after the last. -/
def gather (x : Loop) : Loop :=
  match x.phase with
  | .gathering ending (left + 2) =>
      { x with phase := .gathering ending (left + 1) }
  | .gathering ending _ =>
      { x with phase := .gathered ending, line := x.line ++ [.main] }
  | _ => x

/-- Come to an end: cancel what is left and gather all. The subscription is
gathered at once, since it has ended or is cancelled without a turn of its
own. -/
def leave (ending : Host → Ending × Host) (x : Loop) : Loop :=
  { x with
    consumer := x.consumer.cancel
    stopper := x.stopper.cancel
    subscription := if x.subscription = .pending then .cancelled
      else x.subscription
    phase := .gathering (ending x.host).1 3
    host := (ending x.host).2
    line := x.line
      ++ (x.consumer.cancelTurn .consumer ++ x.stopper.cancelTurn .stopper)
      ++ (x.consumer.gatherTurn ++ x.stopper.gatherTurn ++ [.gathered]) }

/-- Look what has ended. A failed subscription counts first and the
consumer next; if only the subscription was made the main task waits
again. -/
def look (s : Settings) (x : Loop) : Loop :=
  match x.subscription with
  | .settled (some fault) => x.leave (subscriptionFailed fault)
  | _ =>
      match x.consumer with
      | .ended conclusion => x.leave (concluded s conclusion)
      | _ =>
          match x.stopper with
          | .ended _ => x.leave stopped
          | _ => { x with phase := .waiting }

/-- Take the output directory away unless it is kept. A fault of that counts
instead of the result. -/
def close (s : Settings) (ending : Ending) (x : Loop) : Loop :=
  if ending.keep then { x with phase := .over ending.result }
  else match Output.remove s.outPath x.host with
    | .ok _ h => { x with phase := .over ending.result, host := h }
    | .error f h =>
        { x with phase := .over (.error (.output (.disk f))), host := h }

/-- The main task's turn. -/
def goOn (s : Settings) (x : Loop) : Loop :=
  match x.phase with
  | .woken => x.look s
  | .gathered ending => { x with phase := .leaving ending }
  | .left ending => x.close s ending
  | _ => x

-- ================================================================ steps

/-- What a turn does. -/
def turn (s : Settings) : Turn → Loop → Loop
  | .arrival a => arrive a
  | .consumer => consume s
  | .stopper => endStopper
  | .finished _ => wake
  | .gathered => gather
  | .main => goOn s

/-- Something arrives and gets its place in the line. -/
def receive (a : Arrival) (rest : List Arrival) (x : Loop) : Loop :=
  { x with pending := rest, line := x.line ++ [.arrival a] }

/-- The next turn is taken. -/
def take (s : Settings) (t : Turn) (rest : List Turn) (x : Loop) : Loop :=
  { x with line := rest }.turn s t

/-- The source has been given up, and the main task gets its turn. -/
def release (ending : Ending) (x : Loop) : Loop :=
  { x with
    phase := .left ending, line := x.line ++ [.main]
    account :=
      { x.account with requests := x.account.requests ++ [.unsubscribe] } }

/-- Is the run over? -/
def isOver (x : Loop) : Bool :=
  match x.phase with
  | .over _ => true
  | _ => false

/-- What may happen next in a run that is not over. -/
inductive Step (s : Settings) : Loop → Loop → Prop
  | arrives {x : Loop} {a : Arrival} {rest : List Arrival}
      (going : x.isOver = false) (pending : x.pending = a :: rest) :
      Step s x (x.receive a rest)
  | turns {x : Loop} {t : Turn} {rest : List Turn}
      (going : x.isOver = false) (line : x.line = t :: rest) :
      Step s x (x.take s t rest)
  | released {x : Loop} {ending : Ending}
      (phase : x.phase = .leaving ending) : Step s x (x.release ending)

end Loop

end TreeReplica.Run
