/-
The two programs at a terminal. A first word `verify` calls the verifying
program; any other command line is one of the replicating program.

The programs are functions of values. This layer fetches the values that
they start from, the file of settings and whether the output directory is
there, and writes what they answer. It has no transport: to it every
server is unreachable, which both programs report in their own words, so
nothing on the machine's disk is ever changed.
-/
import TreeReplica.Program.Replicate
import TreeReplica.Program.Verify

namespace TreeReplica.Terminal

open CommandLine (Command Interface)

-- ============================================================ fetching

/-- The bytes of a file, if there is one that can be read. -/
def fetchFile? (name : String) : IO (Option Bytes) := do
  try
    let content ← IO.FS.readBinFile name
    return some content.toList
  catch _ => return none

/-- Is there a directory of this name? -/
def hasDirectory (name : String) : IO Bool := do
  try
    let place ← IO.FS.realPath name
    place.isDir
  catch _ => return false

/-- A disk with nothing on it. -/
def blank : Disk := { root := .directory [], workingDirectory := [] }

/-- What work on a disk leaves there. -/
def after (d : Disk) (work : Work Fault Unit) : Disk :=
  match work { disk := d } with
  | .ok _ h => h.disk
  | .error _ h => h.disk

/-- A disk with a directory more. -/
def withDirectory (d : Disk) (p : Path) : Disk :=
  after d (Output.makeDirectories p.anchor p.parts.reverse)

/-- A disk with a file more. -/
def withFile (d : Disk) (p : Path) (content : Bytes) : Disk :=
  after (withDirectory d p.parent) (Work.act (·.write p content))

/-- A disk with the file of settings that a command line names. -/
def settingsDisk (i : Interface) (words : List String) : IO Disk := do
  match Command.read i words with
  | .command c =>
      match c.value? "config" with
      | none => return blank
      | some name =>
          match ← fetchFile? name with
          | none => return blank
          | some content =>
              return withFile blank (Path.ofString name) content
  | _ => return blank

-- ============================================================= writing

/-- How every server fails to answer. -/
def noTransport : Remote.Fault := ⟨.timeout, "Connection time-out"⟩

/-- What is written about a command line that is refused. -/
def refusal (i : Interface) (message : String) : String :=
  i.usage ++ s!"{i.program}: {Program.usageError message}\n"

/-- What the replicating program writes about its end, with its code. -/
def replicationEnd : Program.Exit → String × UInt32
  | .code n => ("", n.toUInt32)
  | .text s => (s ++ "\n", 1)
  | .usage message => (refusal Program.replicateInterface message, 2)
  | .config e => (e.message ++ "\n", 1)
  | .run f => (f.message ++ "\n", 1)

/-- What the verifying program writes about its end, with its code. -/
def verificationEnd : Program.VerifyExit → String × UInt32
  | .code n => ("", n.toUInt32)
  | .help => ("", 0)
  | .usage message => (refusal Program.verifyInterface message, 2)
  | .config e => (e.message ++ "\n", 1)
  | .disk f => (f.message ++ "\n", 1)
  | .remote f => (f.message ++ "\n", 1)

-- ============================================================ programs

/-- Replicate. -/
def replicate (words : List String) : IO UInt32 := do
  let d ← settingsDisk Program.replicateInterface words
  let hosts := match Program.settings d words with
    | .ok c => c.server
    | .error _ => ""
  let fault : Remote.Fault :=
    ⟨.watcher, (Remote.WatchFailure.unreachable hosts noTransport).message⟩
  let r := Program.replicate words (.fails fault) { disk := d }
  let (text, code) := replicationEnd r.exit
  IO.print r.output
  for record in r.errors do
    IO.eprintln record.line
  IO.eprint text
  return code

/-- Verify. -/
def verify (words : List String) : IO UInt32 := do
  let d ← settingsDisk Program.verifyInterface words
  let d ← match Command.read Program.verifyInterface words with
    | .command c =>
        match Program.verifySettings d c with
        | .ok config =>
            let out := Path.ofString config.output
            if ← hasDirectory out.text then pure (withDirectory d out)
            else pure d
        | .error _ => pure d
    | _ => pure d
  let v := Program.verify words d [] (some noTransport)
  let (text, code) := verificationEnd v.exit
  match v.exit with
  | .help => IO.print Program.verifyInterface.help
  | _ => pure ()
  for line in v.lines do
    IO.println line
  IO.eprint text
  return code

end TreeReplica.Terminal

/-- The programs, told apart by the first word. -/
def main (words : List String) : IO UInt32 :=
  match words with
  | "verify" :: rest => TreeReplica.Terminal.verify rest
  | _ => TreeReplica.Terminal.replicate words
