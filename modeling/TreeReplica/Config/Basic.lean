/-
The settings of the programs, with their defaults.
-/
import TreeReplica.Number.Shortest
import TreeReplica.Replica.Apply

namespace TreeReplica

/-- Settings. -/
structure Config where
  server : String := ""
  path : String := "/"
  output : String := "."
  force : Bool := false
  verbose : Bool := false
  exitAfterSync : Bool := false
  payload : String := defaultPayload
  connectTimeout : Float := 15.0
  maxRetries : Int := 3
  retryDelay : Float := 1.0
  deriving Inhabited

/-- A truth value in a report. -/
def truthText (b : Bool) : String := if b then "True" else "False"

/-- All settings in one line. -/
def Config.text (c : Config) : String :=
  let fields :=
    [("server", Text.quoted c.server), ("path", Text.quoted c.path),
      ("output_dir", Text.quoted c.output),
      ("force_clean", truthText c.force), ("verbose", truthText c.verbose),
      ("exit_after_sync", truthText c.exitAfterSync),
      ("payload_name", Text.quoted c.payload),
      ("connect_timeout", Number.text c.connectTimeout),
      ("max_retries", toString c.maxRetries),
      ("retry_delay", Number.text c.retryDelay)]
  "Config(" ++ ", ".intercalate (fields.map fun (k, v) => k ++ "=" ++ v)
    ++ ")"

end TreeReplica
