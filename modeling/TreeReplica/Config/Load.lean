/-
Settings from a file. The file is a document whose root is a mapping;
keys that name no setting are passed over, and a setting without a key
has its default. A value of another kind is turned into the kind of the
setting where that is possible.

The settings are read in a fixed order, so of several that cannot be read
the first counts.

What loads a document is not part of this. It is a field of the `Reader`
that the settings are read with, and nothing is supposed of it.
-/
import TreeReplica.Config.Basic
import TreeReplica.Disk.Call
import TreeReplica.Text.Utf8
import TreeReplica.Yaml.Document

namespace TreeReplica.Config

open Yaml (Value Loaded)

-- ============================================================== reading

/-- What settings are read with: the loader of documents, which comes from
a library, and how many levels deep the text of a value may be nested. -/
structure Reader where
  load : List Char → Except Yaml.Fault Loaded
  room : Nat

/-- The reader that the programs run with, one among all those that the
settings can be read with. Of the thousand levels that calls may be nested
the programs take a few themselves. -/
def Reader.standard : Reader where
  load := Yaml.load
  room := 990

-- ============================================================== errors

/-- The kinds of numbers that a setting may be. -/
inductive NumberKind
  | decimal
  | integer
  deriving DecidableEq, Repr, Inhabited

/-- Why a file gives no settings. -/
inductive LoadFailure
  | disk (f : Fault)
  | encoding (e : Text.Utf8Error)
  | document (e : Yaml.Fault)
  | notMapping (file : Path)
  | number (e : Number.NumberError)
  | notNumber (wanted : NumberKind) (found : String)
  deriving DecidableEq, Repr, Inhabited

/-- The wording of a malformed text. -/
def encodingMessage (e : Text.Utf8Error) : String :=
  let place :=
    if e.length = 1 then
      "byte 0x" ++ String.ofList (Text.hexDigits 2 e.byte.toNat)
        ++ s!" in position {e.position}"
    else s!"bytes in position {e.position}-{e.position + e.length - 1}"
  s!"'utf-8' codec can't decode {place}: {e.cause.text}"

/-- What a setting of a kind may be made of. -/
def NumberKind.sources : NumberKind → String
  | .decimal => "float() argument must be a string or a real number"
  | .integer =>
      "int() argument must be a string, a bytes-like object or a real number"

/-- The wording of a failure. -/
def LoadFailure.message : LoadFailure → String
  | .disk f => f.message
  | .encoding e => encodingMessage e
  | .document e => e.message
  | .notMapping file => s!"{file.text} must contain a mapping"
  | .number e => e.message
  | .notNumber wanted found => s!"{wanted.sources}, not '{found}'"

-- ============================================================== values

/-- Bytes as the text of a number, with a character that occurs in no
number for each that is not ASCII. -/
def bytesText (bytes : List UInt8) : String :=
  String.ofList (bytes.map fun b =>
    if b.toNat < 0x80 then Char.ofNat b.toNat else '?')

/-- A number or the error about it, as a setting. -/
def ofNumber {α : Type} : Except Number.NumberError α →
    Except LoadFailure α
  | .ok a => .ok a
  | .error e => .error (.number e)

/-- The text that a value is, with room for so many levels. -/
def textOf (room : Nat) (v : Value) : Except LoadFailure String :=
  ofNumber (v.text? room)

/-- A decimal out of a text. -/
def readDecimal (s shown : String) : Except Number.NumberError Float :=
  match Number.readDecimal s with
  | some x => .ok x
  | none => .error (.notDecimal shown)

/-- An integer out of a text. -/
def readInteger (s shown : String) : Except Number.NumberError Int :=
  match Number.readInteger s with
  | .ok n => .ok n
  | .error e => .error (e.about 10 shown)

/-- The binary number that a value is. -/
def floatOf (v : Value) : Except LoadFailure Float :=
  match v with
  | .bool b => .ok (if b then 1.0 else 0.0)
  | .int n => ofNumber (Number.toBinary n)
  | .float x => .ok x
  | .text s => ofNumber (readDecimal s (Text.quoted s))
  | .bytes b => ofNumber (readDecimal (bytesText b) (Value.quotedBytes b))
  | v => .error (.notNumber .decimal v.kindWord)

/-- The whole number that a value is, its fraction dropped. -/
def intOf (v : Value) : Except LoadFailure Int :=
  match v with
  | .bool b => .ok (if b then 1 else 0)
  | .int n => .ok n
  | .float x => ofNumber (Number.wholePart x)
  | .text s => ofNumber (readInteger s (Text.quoted s))
  | .bytes b => ofNumber (readInteger (bytesText b) (Value.quotedBytes b))
  | v => .error (.notNumber .integer v.kindWord)

-- ============================================================ settings

/-- The setting under a key, or its default. -/
def setting {α : Type} (get? : String → Option Value) (key : String)
    (read : Value → Except LoadFailure α) (default : α) :
    Except LoadFailure α :=
  match get? key with
  | some v => read v
  | none => .ok default

/-- The settings of a mapping. -/
def ofMapping (room : Nat) (get? : String → Option Value) :
    Except LoadFailure Config := do
  let c : Config := {}
  let text := textOf room
  let truth (v : Value) : Except LoadFailure Bool := .ok v.isTrue
  return {
    server := ← setting get? "server" text c.server
    path := ← setting get? "path" text c.path
    output := ← setting get? "output_dir" text c.output
    force := ← setting get? "force_clean" truth c.force
    verbose := ← setting get? "verbose" truth c.verbose
    exitAfterSync := ← setting get? "exit_after_sync" truth c.exitAfterSync
    payload := ← setting get? "payload_name" text c.payload
    connectTimeout :=
      ← setting get? "connect_timeout" floatOf c.connectTimeout
    maxRetries := ← setting get? "max_retries" intOf c.maxRetries
    retryDelay := ← setting get? "retry_delay" floatOf c.retryDelay }

/-- The settings that a loaded document gives. A value that does not count
as true gives the defaults, as an empty mapping does. -/
def ofLoaded (room : Nat) (file : Path) :
    Loaded → Except LoadFailure Config
  | .mapping get? => ofMapping room get?
  | .other v => if v.isTrue then .error (.notMapping file) else .ok {}

/-- The settings that the content of a file gives. -/
def ofBytes (file : Path) (content : Bytes) (reader : Reader := .standard) :
    Except LoadFailure Config :=
  match Text.decode content with
  | .error e => .error (.encoding e)
  | .ok text =>
      match reader.load (Text.unifyLineEnds text) with
      | .error e => .error (.document e)
      | .ok loaded => ofLoaded reader.room file loaded

/-- Read the settings of a file. -/
def load (d : Disk) (file : Path) (reader : Reader := .standard) :
    Except LoadFailure Config :=
  match d.read file with
  | .ok content => ofBytes file content reader
  | .error f => .error (.disk f)

end TreeReplica.Config
