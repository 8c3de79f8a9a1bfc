/-
What a run reports while it works: records of a level and a text, oldest
first. Records are data, so a statement can ask whether an error was
reported without looking at any output.
-/
namespace TreeReplica

/-- How urgent a record is, least urgent first. -/
inductive Level
  | debug
  | info
  | warning
  | error
  deriving DecidableEq, Repr, Inhabited

/-- The place of a level in the order of urgency. -/
def Level.rank : Level → Nat
  | .debug => 0
  | .info => 1
  | .warning => 2
  | .error => 3

/-- The word that stands for a level in a written log. -/
def Level.word : Level → String
  | .debug => "DEBUG"
  | .info => "INFO"
  | .warning => "WARNING"
  | .error => "ERROR"

/-- One report. -/
structure Record where
  level : Level
  text : String
  deriving DecidableEq, Repr, Inhabited

/-- A record as one line of a written log. -/
def Record.line (r : Record) : String := r.level.word ++ " " ++ r.text

/-- The reports of a run, oldest first. -/
abbrev Log := List Record

/-- The records that are at least as urgent as `level`. -/
def Log.atLeast (log : Log) (level : Level) : Log :=
  log.filter fun r => level.rank ≤ r.level.rank

/-- Does the log hold an error? -/
def Log.hasError (log : Log) : Bool := log.any fun r => r.level = .error

end TreeReplica
