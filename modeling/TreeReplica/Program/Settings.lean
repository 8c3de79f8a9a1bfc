/-
The settings that a command line gives the replicating program: those of
the file that it names, overridden by its flags. Settings without a
server, or with a path that is no remote path, are refused as wrong
usage.
-/
import TreeReplica.CommandLine.Help
import TreeReplica.CommandLine.Parse
import TreeReplica.Config.Load
import TreeReplica.Remote.Path

namespace TreeReplica.Program

open CommandLine (Flag Interface Command)

-- =========================================================== interface

/-- The flag that names a file of settings. -/
def configFlag : Flag :=
  .valued "config" "CONFIG" ["--config"] "Path to a YAML config file"

/-- The command line of the replicating program. -/
def replicateInterface : Interface :=
  { program := "treefs-mirror"
    about := "Mirror a ZooKeeper tree or subtree onto the local filesystem "
      ++ "(read only)"
    flags := [
      .help,
      configFlag,
      .valued "server" "SERVER" ["-server", "--server"]
        "the ZooKeeper server to connect to (host:port)",
      .valued "path" "PATH" ["-path", "--path"]
        "the ZooKeeper path of the root node to mirror; default '/'",
      .valued "out" "OUT" ["-out", "--out"]
        "the local directory to mirror into; default '.'",
      .switched "force" ["-f", "--force"]
        ("recursively delete the output directory if not empty on "
          ++ "startup"),
      .switched "verbose" ["-v", "--verbose"] "log all events",
      .switched "exit" ["-x", "--exit-after-sync"]
        "exit after initial mirror is built"] }

-- ============================================================ settings

/-- Why there are no settings to run with: help was asked for, the usage
is wrong, or the file of settings broke the reading. -/
inductive Stop
  | help
  | usage (message : String)
  | broken (e : Config.LoadFailure)
  deriving Inhabited

/-- Is it only the file's text or content that is at fault, so that the
user is told of wrong usage? A value of a wrong kind or nested too deep, a
number out of range and a text that does not fit its tag break the program
instead, and so does a fault of the disk. -/
def isUsageFault : Config.LoadFailure → Bool
  | .disk (.argument _) => true
  | .disk (.system _) => false
  | .encoding _ => true
  | .document (.text e) => isTextUsage e
  | .document _ => true
  | .notMapping _ => true
  | .number e => isNumberUsage e
  | .notNumber _ _ => false
where
  /-- Is a number out of range, or too deep a value, no part of this
  error? -/
  isNumberUsage : Number.NumberError → Bool
    | .tooLarge => false
    | .infinite => false
    | .tooDeep => false
    | _ => true
  /-- Is the text a wrong number, time or character code? -/
  isTextUsage : Yaml.TextFault → Bool
    | .number e => isNumberUsage e
    | .time _ => true
    | .character code => code < 0x80000000
    | _ => false

/-- The settings of the file that a command line names, if it names
one. -/
def fileConfig (d : Disk) (c : Command)
    (reader : Config.Reader := .standard) : Except Stop Config :=
  match c.value? "config" with
  | none => .ok {}
  | some name =>
      let file := Path.ofString name
      match d.reaches file with
      | .error f => .error (.broken (.disk f))
      | .ok false => .error (.usage s!"config file not found: {file.text}")
      | .ok true =>
          match Config.load d file reader with
          | .ok config => .ok config
          | .error e =>
              if isUsageFault e then .error (.usage e.message)
              else .error (.broken e)

/-- Settings overridden by flags. -/
def override (config : Config) (c : Command) : Config :=
  { config with
    server := (c.value? "server").getD config.server
    path := (c.value? "path").getD config.path
    output := (c.value? "out").getD config.output
    force := config.force || c.isOn "force"
    verbose := config.verbose || c.isOn "verbose"
    exitAfterSync := config.exitAfterSync || c.isOn "exit" }

/-- The settings, if they can be run with. -/
def checked (config : Config) : Except Stop Config :=
  if config.server = "" then .error (.usage "Missing -server specification")
  else match Remote.validate config.path with
    | .ok _ => .ok config
    | .error r => .error (.usage r.message)

/-- The settings that a command line gives. -/
def settings (d : Disk) (words : List String)
    (reader : Config.Reader := .standard) : Except Stop Config :=
  match Command.read replicateInterface words with
  | .help => .error .help
  | .refused r => .error (.usage r.message)
  | .command c => do
      let config ← fileConfig d c reader
      checked (override config c)

/-- What is written when the usage is wrong. -/
def usageError (message : String) : String := s!"error: {message}"

end TreeReplica.Program
