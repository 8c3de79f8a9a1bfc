/-
The replicating program: it takes its settings from a command line, makes
a client, and runs until it is told to stop. What it reports while it
runs is written to the error output, if it is urgent enough.
-/
import TreeReplica.Program.Settings
import TreeReplica.Remote.Watch
import TreeReplica.Replica.Run

namespace TreeReplica.Program

/-- How a program ends: with a code, with a last text, or broken by a
failure. -/
inductive Exit
  | code (n : Nat)
  | text (s : String)
  | usage (message : String)
  | config (e : Config.LoadFailure)
  | run (f : Run.Failure)
  deriving Inhabited

/-- What a program did. -/
structure Replication where
  exit : Exit
  output : String := ""
  errors : Log := []
  made : List Remote.WatchOptions := []
  account : Run.Account := {}
  host : Host
  deriving Inhabited

/-- What a run needs of the settings. -/
def runSettings (c : Config) : Run.Settings :=
  { out := c.output, base := c.path, payload := c.payload, force := c.force
    exitAfterSync := c.exitAfterSync }

/-- What a watch needs of the settings. -/
def watchOptions (c : Config) : Remote.WatchOptions :=
  { hosts := c.server
    connectTimeout := .binary c.connectTimeout
    maxRetries := c.maxRetries
    retryDelay := .binary c.retryDelay }

/-- The first report of a run. -/
def starting (c : Config) : Record :=
  ⟨.info, s!"Starting mirror with config: {c.text}"⟩

/-- How urgent a report must be to be written. -/
def threshold (c : Config) : Level := if c.verbose then .info else .warning

/-- How the program ends after a run. An output directory that cannot be
used, and a source that refuses to start, end it with their text. -/
def exitOf : Except Run.Failure Nat → Exit
  | .ok n => .code n
  | .error (.output (.refused r)) => .text r.message
  | .error (.remote f) =>
      if f.kind = .startup then .text f.message else .run (.remote f)
  | .error f => .run f

/-- Run with settings. -/
def replicateWith (c : Config) (source : Run.Source) (h : Host) :
    Replication :=
  let report := Run.run (runSettings c) source
    { h with log := h.log ++ [starting c] }
  { exit := exitOf report.result
    errors := report.host.log.atLeast (threshold c)
    made := [watchOptions c]
    account := report.account
    host := report.host }

/-- Run a command line. -/
def replicate (words : List String) (source : Run.Source) (h : Host)
    (reader : Config.Reader := .standard) : Replication :=
  match settings h.disk words reader with
  | .error .help =>
      { exit := .code 0, output := replicateInterface.help, host := h }
  | .error (.usage message) => { exit := .usage message, host := h }
  | .error (.broken e) => { exit := .config e, host := h }
  | .ok c => replicateWith c source h

end TreeReplica.Program
