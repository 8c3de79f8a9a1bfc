/-
The verifying program: it reads the remote tree, renders the layout that
a replica of it has, compares that with the output directory, and prints
what differs and how much agrees.
-/
import TreeReplica.Layout.Compare
import TreeReplica.Layout.Expected
import TreeReplica.Layout.Scan
import TreeReplica.Program.Settings
import TreeReplica.Remote.Snapshot
import TreeReplica.Remote.Watch

namespace TreeReplica.Program

open CommandLine (Interface Command)

-- =========================================================== interface

/-- The command line of the verifying program. -/
def verifyInterface : Interface :=
  { program := "treefs-verify"
    about := "Check a mirror against its ZooKeeper subtree"
    flags := [
      .help,
      configFlag,
      .valued "server" "SERVER" ["--server"]
        "the ZooKeeper server to connect to (host:port)",
      .valued "path" "PATH" ["--path"] "the mirrored ZooKeeper path",
      .valued "out" "OUT" ["--out"] "the mirror directory"] }

-- ============================================================== calls

/-- The calls that are made to the remote side. -/
inductive VerifyCall
  | makeClient (hosts : String) (maxTries : Int) (delay : Float)
  | start (timeout : Float)
  | read (r : Remote.Read)
  | stop
  | close
  deriving Inhabited

/-- How the verifying program ends. -/
inductive VerifyExit
  | code (n : Nat)
  | help
  | usage (message : String)
  | config (e : Config.LoadFailure)
  | disk (f : Fault)
  | remote (f : Remote.Fault)
  deriving Inhabited

/-- What the verifying program did: how it ended, the lines that it
printed, its reports and its calls. -/
structure Verification where
  exit : VerifyExit
  lines : List String := []
  log : Log := []
  calls : List VerifyCall := []
  deriving Inhabited

-- =========================================================== comparing

/-- A line about something that is wrong. -/
def wrong (text : String) : String := s!"[NG] {text}"

/-- The lines about the problems of a layout, and the two sums: how many
expected entries agree, and how many problems there are. A message that
starts with "extra" is not about an expected entry. -/
def verdict (expected : Layout) (problems : List Layout.Problem) :
    List String :=
  let messages := problems.map (·.message)
  let atExpected := messages.filter fun text =>
    !"extra".toList.isPrefixOf text.toList
  let agreeing : Int := (expected.entries.length : Int) - atExpected.length
  messages.map wrong ++ [s!"OK: {agreeing}", s!"NG: {problems.length}"]

/-- Compare nodes with an output directory. -/
def verifyNodes (d : Disk) (out : Path) (base payload : String)
    (nodes : List Node) (calls : List VerifyCall) : Verification :=
  let (expected, rejections) := Layout.expected nodes base payload
  let log := rejections.map fun r => ⟨.info, Layout.notKept r⟩
  match d.scan out with
  | .error f => { exit := .disk f, log, calls }
  | .ok actual =>
      let problems := expected.compare actual
      { exit := .code (if problems.isEmpty then 0 else 1)
        lines := verdict expected problems, log, calls }

/-- Verify with settings. `startFault` is how the client fails to
start. The client is stopped and closed however the reading ends. -/
def verifyWith (d : Disk) (c : Config) (server : Remote.Server)
    (startFault : Option Remote.Fault) : Verification :=
  let out := Path.ofString c.output
  if c.server = "" then
    { exit := .code 1, lines := [wrong "no server given"] }
  else match d.isDirectory out with
    | .error f => { exit := .disk f }
    | .ok false =>
        { exit := .code 1
          lines := [wrong s!"output directory not found: {out.text}"] }
    | .ok true =>
        let walk : Remote.Walk := match startFault with
          | some fault => { failure := some fault }
          | none => Remote.snapshot server c.path
        let calls :=
          [.makeClient c.server c.maxRetries c.retryDelay,
            .start c.connectTimeout]
            ++ walk.reads.map .read ++ [.stop, .close]
        match walk.failure with
        | none => verifyNodes d out c.path c.payload walk.nodes calls
        | some fault =>
            if fault.kind.isUnreachable then
              { exit := .code 1, calls
                lines := [wrong (s!"failed to read {c.path} from "
                  ++ s!"{c.server}: {fault.message}")] }
            else { exit := .remote fault, calls }

/-- The settings of a command line: those of the file that it names,
overridden by its flags. Nothing about them is checked. -/
def verifySettings (d : Disk) (c : Command)
    (reader : Config.Reader := .standard) :
    Except Config.LoadFailure Config := do
  let config ← match c.value? "config" with
    | none => .ok {}
    | some name => Config.load d (Path.ofString name) reader
  return override config c

/-- Verify with a command line. -/
def verify (words : List String) (d : Disk) (server : Remote.Server)
    (startFault : Option Remote.Fault)
    (reader : Config.Reader := .standard) : Verification :=
  match Command.read verifyInterface words with
  | .help =>
      { exit := .help, lines := [] }
  | .refused r => { exit := .usage r.message }
  | .command c =>
      match verifySettings d c reader with
      | .error e => { exit := .config e }
      | .ok config => verifyWith d config server startFault

end TreeReplica.Program
