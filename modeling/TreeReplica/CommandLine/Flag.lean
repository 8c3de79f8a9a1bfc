/-
The flags of a program. A flag has one or more names, of which the first
stands in the usage line, and either takes a value or is a switch. Every
program has the switch that asks for help.
-/
namespace TreeReplica.CommandLine

/-- What a flag does: it takes a value, which is called by a placeholder
in texts about it, it is on or off, or it asks for help. -/
inductive FlagKind
  | value (placeholder : String)
  | switch
  | help
  deriving DecidableEq, Repr, Inhabited

/-- A flag. `key` is what the program knows it by. -/
structure Flag where
  key : String
  names : List String
  kind : FlagKind
  about : String
  deriving DecidableEq, Repr, Inhabited

/-- The flag that asks for help. -/
def Flag.help : Flag :=
  { key := "help", names := ["-h", "--help"], kind := .help
    about := "show this help message and exit" }

/-- A flag that takes a value. -/
def Flag.valued (key placeholder : String) (names : List String)
    (about : String) : Flag :=
  { key, names, kind := .value placeholder, about }

/-- A flag that is on or off. -/
def Flag.switched (key : String) (names : List String) (about : String) :
    Flag :=
  { key, names, kind := .switch, about }

/-- Does a flag take a value? -/
def Flag.takesValue (f : Flag) : Bool :=
  match f.kind with
  | .value _ => true
  | _ => false

/-- What a flag is called in an error. -/
def Flag.title (f : Flag) : String := "/".intercalate f.names

/-- A program as its command line sees it. -/
structure Interface where
  program : String
  about : String
  flags : List Flag
  deriving DecidableEq, Repr, Inhabited

/-- All names with their flags. -/
def Interface.named (i : Interface) : List (String × Flag) :=
  i.flags.flatMap fun f => f.names.map fun name => (name, f)

/-- The flag with a name. -/
def Interface.find? (i : Interface) (name : String) : Option Flag :=
  i.named.lookup name

end TreeReplica.CommandLine
