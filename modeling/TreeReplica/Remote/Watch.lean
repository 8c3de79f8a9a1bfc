/-
Watching the remote tree: the life of a client connection and of the
cache that reports through it.

`subscribe` makes a client, starts it and then a cache; `unsubscribe`
closes what is held. A client is held from the moment it is made, so a
subscription that hangs or fails while it connects can be given up: the
client that finds itself no longer held once it is connected stops at
once.

Every call is recorded in order. How the far side answers during one
operation is `Answers`: which calls fail, and whether the subscription is
given up while it connects.
-/
import TreeReplica.Log
import TreeReplica.Number.Quantity
import TreeReplica.Remote.Fault
import TreeReplica.Remote.Report

namespace TreeReplica.Remote

-- =============================================================== calls

/-- How a client repeats an attempt: how often, after what delay, and by
what factor the delay grows. -/
structure Retry where
  maxTries : Int
  delay : Number.Quantity
  backoff : Nat
  deriving Inhabited

/-- A client repeats attempts to connect and commands alike, and doubles
the delay each time. -/
def Retry.doubling (maxTries : Int) (delay : Number.Quantity) : Retry :=
  { maxTries, delay, backoff := 2 }

/-- The calls of a watch. Clients are numbered as they are made, and a
cache that is closed is known by its client. -/
inductive Call
  | makeClient (hosts : String) (maxTries : Int) (delay : Number.Quantity)
  | start (client : Nat) (timeout : Number.Quantity)
  | makeCache (client : Nat) (path : String)
  | startCache
  | closeCache {client : Nat}
  | stop (client : Nat)
  | close (client : Nat)
  deriving Inhabited

/-- Which calls of one operation fail, and whether the subscription is
given up while its client starts. -/
structure Answers where
  start : Option Fault := none
  stop : Option Fault := none
  close : Option Fault := none
  startCache : Option Fault := none
  closeCache : Option Fault := none
  givenUp : Bool := false
  deriving DecidableEq, Repr, Inhabited

/-- How an operation fails: the watch could not be set up, or a call
failed. -/
inductive WatchFailure
  | unreachable (hosts : String) (fault : Fault)
  | call (fault : Fault)
  deriving DecidableEq, Repr, Inhabited

/-- The wording of a failure. -/
def WatchFailure.message : WatchFailure → String
  | .unreachable hosts fault =>
      s!"cannot connect to {hosts}: {fault.message}"
  | .call fault => fault.message

-- =============================================================== watch

/-- The settings of a watch. -/
structure WatchOptions where
  hosts : String
  connectTimeout : Number.Quantity := .binary 15.0
  maxRetries : Int := 3
  retryDelay : Number.Quantity := .binary 1.0
  deriving Inhabited

/-- A watch: how many clients it has made, which it holds, and the client
of the cache that it holds. -/
structure Watch where
  options : WatchOptions
  made : Nat := 0
  client : Option Nat := none
  cache : Option Nat := none
  deriving Inhabited

/-- A watch with the calls it has made and its log. -/
structure Watching where
  watch : Watch
  calls : List Call := []
  log : Log := []
  deriving Inhabited

/-- An operation of a watch. -/
abbrev Operation (ε α : Type) : Type := EStateM ε Watching α

namespace Watch

/-- Report. -/
def say {ε : Type} (level : Level) (text : String) : Operation ε Unit :=
  modify fun w => { w with log := w.log ++ [⟨level, text⟩] }

/-- Make a call that fails if a fault is given. -/
def call (c : Call) (fault : Option Fault) : Operation Fault Unit := do
  modify fun w => { w with calls := w.calls ++ [c] }
  match fault with
  | none => pure ()
  | some f => throw f

/-- Do some calls; a failure of the client itself is only reported. -/
def reporting (text : String) (work : Operation Fault Unit) :
    Operation Fault Unit :=
  tryCatch work fun fault =>
    if fault.kind.isClient then say .error (text ++ fault.message)
    else throw fault

/-- Stop and close a client. -/
def hangUp (answers : Answers) (client : Nat) : Operation Fault Unit := do
  call (.stop client) answers.stop
  call (.close client) answers.close

/-- Let go of the cache and the client, and close both. -/
def unsubscribe (answers : Answers) : Operation Fault Unit := do
  let w := (← get).watch
  modify fun s =>
    { s with watch := { s.watch with client := none, cache := none } }
  match w.cache with
  | none => pure ()
  | some client =>
      reporting "Failed to close tree cache: "
        (call (@Call.closeCache client) answers.closeCache)
  match w.client with
  | none => pure ()
  | some client =>
      reporting s!"Failed to close connection to {w.options.hosts}: "
        (hangUp answers client)

/-- Start a client. The subscription may be given up meanwhile. -/
def connect (answers : Answers) (client : Nat) : Operation Fault Unit := do
  let options := (← get).watch.options
  call (.start client options.connectTimeout) none
  if answers.givenUp then unsubscribe answers
  match answers.start with
  | none => pure ()
  | some fault => throw fault

/-- Start a cache for `path` on a client that has connected. A client that
is no longer held hangs up instead. -/
def listen (answers : Answers) (client : Nat) (path : String) :
    Operation Fault Unit := do
  let w := (← get).watch
  if w.client ≠ some client then
    hangUp answers client
  else
    modify fun s => { s with watch := { s.watch with cache := some client } }
    call (.makeCache client path) none
    call .startCache answers.startCache
    say .info s!"Watching {path} on {w.options.hosts}"

/-- Connect and start a cache for `path`. -/
def subscribe (answers : Answers) (path : String) :
    Operation WatchFailure Unit := fun s =>
  let options := s.watch.options
  let client := s.watch.made + 1
  let made : Watching :=
    { s with
      watch := { s.watch with made := client, client := some client }
      calls := s.calls
        ++ [.makeClient options.hosts options.maxRetries options.retryDelay] }
  match connect answers client made with
  | .error fault s' =>
      .error
        (if fault.kind.isUnreachable then .unreachable options.hosts fault
          else .call fault) s'
  | .ok _ s' =>
      match listen answers client path s' with
      | .ok _ s'' => .ok () s''
      | .error fault s'' => .error (.call fault) s''

-- ============================================================ listening

/-- Hear a report of the cache: the record it is worth, and the event it
stands for. -/
def hear (r : Report) : Log × Option Event :=
  match r.kind with
  | .connection change =>
      ([⟨.warning, s!"Tree cache connection {change.word}"⟩], none)
  | _ => ([], r.event?)

/-- The record of a change of the session's state. -/
def stateRecord (hosts state : String) : Record :=
  if state = "LOST" then ⟨.error, s!"Session to {hosts} lost"⟩
  else if state = "SUSPENDED" then
    ⟨.warning, s!"Connection to {hosts} suspended"⟩
  else ⟨.info, s!"Connected to {hosts}"⟩

/-- The record of a fault in the cache. -/
def faultRecord (fault : Fault) : Record :=
  ⟨.error, s!"Tree cache error: {fault.message}"⟩

end Watch

end TreeReplica.Remote
