/-
Why a document is refused. The causes are sorted by what notices them:
the characters, the tokens, the structure, the anchors, the values and
the texts of single values. `Fault.message` is the one line that a
refusal is reported with. Where the fault stands in the document is not
kept.
-/
import TreeReplica.Number.Reading
import TreeReplica.Text.Base64
import TreeReplica.Text.Quoted

namespace TreeReplica.Yaml

-- ============================================================== tokens

/-- What was being read when a text turned out not to be tokens. -/
inductive LexicalFault
  | token
  | simpleKey
  | sequenceEntry
  | mappingKey
  | mappingValue
  | directive
  | directiveTag
  | anchor
  | alias
  | tag
  | tagEnd
  | blockScalar
  | quotedScalar
  | escape
  deriving DecidableEq, Repr, Inhabited

/-- The wording of a fault in the tokens. -/
def LexicalFault.message : LexicalFault → String
  | .token => "while scanning for the next token"
  | .simpleKey => "while scanning a simple key"
  | .sequenceEntry => "sequence entries are not allowed here"
  | .mappingKey => "mapping keys are not allowed here"
  | .mappingValue => "mapping values are not allowed here"
  | .directive => "while scanning a directive"
  | .directiveTag => "while parsing a directive"
  | .anchor => "while scanning an anchor"
  | .alias => "while scanning an alias"
  | .tag => "while scanning a tag"
  | .tagEnd => "while parsing a tag"
  | .blockScalar => "while scanning a block scalar"
  | .quotedScalar => "while scanning a quoted scalar"
  | .escape => "while scanning a double-quoted scalar"

-- =========================================================== structure

/-- What is wrong with the order of tokens. -/
inductive GrammarFault
  | documentStart (found : String)
  | repeatedVersion
  | otherVersion
  | repeatedHandle (handle : String)
  | unknownHandle
  | blockNode
  | flowNode
  | blockSequence
  | blockMapping
  | flowSequence
  | flowMapping
  deriving DecidableEq, Repr, Inhabited

/-- The wording of a fault in the structure. -/
def GrammarFault.message : GrammarFault → String
  | .documentStart found =>
      "expected '<document start>', but found " ++ Text.quoted found
  | .repeatedVersion => "found duplicate YAML directive"
  | .otherVersion =>
      "found incompatible YAML document (version 1.* is required)"
  | .repeatedHandle handle => "duplicate tag handle " ++ Text.quoted handle
  | .unknownHandle => "while parsing a node"
  | .blockNode => "while parsing a block node"
  | .flowNode => "while parsing a flow node"
  | .blockSequence => "while parsing a block collection"
  | .blockMapping => "while parsing a block mapping"
  | .flowSequence => "while parsing a flow sequence"
  | .flowMapping => "while parsing a flow mapping"

/-- What is wrong with the nodes that anchors name. -/
inductive AnchorFault
  | unknown (name : String)
  | repeated (name : String)
  | furtherDocument
  deriving DecidableEq, Repr, Inhabited

/-- The wording of a fault in the anchors. -/
def AnchorFault.message : AnchorFault → String
  | .unknown name => "found undefined alias " ++ Text.quoted name
  | .repeated name =>
      "found duplicate anchor " ++ Text.quoted name ++ "; first occurrence"
  | .furtherDocument => "expected a single document in the stream"

-- ============================================================== values

/-- The kinds of nodes. -/
inductive Shape
  | scalar
  | sequence
  | mapping
  deriving DecidableEq, Repr, Inhabited

/-- The word for a kind. -/
def Shape.word : Shape → String
  | .scalar => "scalar"
  | .sequence => "sequence"
  | .mapping => "mapping"

/-- Why a node has no value. -/
inductive ValueFault
  | unknownTag (tag : String)
  | wrongShape (expected found : Shape)
  | mapping
  | orderedMap
  | pairs
  | foreignBase64 (first last : Nat) (character : Char)
  | base64 (e : Text.Base64Error)
  deriving DecidableEq, Repr, Inhabited

/-- The escape of a character that is not ASCII. -/
def foreignEscape (c : Char) : String :=
  String.ofList <|
    if c.toNat < 0x100 then '\\' :: 'x' :: Text.hexDigits 2 c.toNat
    else if c.toNat < 0x10000 then '\\' :: 'u' :: Text.hexDigits 4 c.toNat
    else '\\' :: 'U' :: Text.hexDigits 8 c.toNat

/-- The wording of a fault in the values. -/
def ValueFault.message : ValueFault → String
  | .unknownTag tag =>
      "could not determine a constructor for the tag " ++ Text.quoted tag
  | .wrongShape expected found =>
      s!"expected a {expected.word} node, but found {found.word}"
  | .mapping => "while constructing a mapping"
  | .orderedMap => "while constructing an ordered map"
  | .pairs => "while constructing pairs"
  | .foreignBase64 first last character =>
      "failed to convert base64 data into ascii: 'ascii' codec can't encode "
        ++ (if first = last then
            s!"character '{foreignEscape character}' in position {first}"
          else s!"characters in position {first}-{last}")
        ++ ": ordinal not in range(128)"
  | .base64 e => "failed to decode base64 data: " ++ e.message

-- =============================================================== texts

/-- The parts of a point in time, as far as they can be out of range. -/
inductive TimeFault
  | year (n : Nat)
  | month
  | day
  | hour
  | minute
  | second
  | offset (days : Int) (seconds : Nat)
  deriving DecidableEq, Repr, Inhabited

/-- A span of days and seconds, written as it is made. -/
def spanText (days : Int) (seconds : Nat) : String :=
  let parts :=
    (if days = 0 then [] else [s!"days={days}"])
      ++ (if seconds = 0 then [] else [s!"seconds={seconds}"])
  "datetime.timedelta("
    ++ (if parts.isEmpty then "0" else ", ".intercalate parts) ++ ")"

/-- The wording of a fault in a point in time. -/
def TimeFault.message : TimeFault → String
  | .year n => s!"year {n} is out of range"
  | .month => "month must be in 1..12"
  | .day => "day is out of range for month"
  | .hour => "hour must be in 0..23"
  | .minute => "minute must be in 0..59"
  | .second => "second must be in 0..59"
  | .offset days seconds =>
      "offset must be a timedelta strictly between -timedelta(hours=24) and "
        ++ s!"timedelta(hours=24), not {spanText days seconds}."

/-- Why the text of a value does not fit its tag. -/
inductive TextFault
  | boolean (text : String)
  | empty
  | number (e : Number.NumberError)
  | timestamp
  | collection
  | time (e : TimeFault)
  | character (code : Nat)
  deriving DecidableEq, Repr, Inhabited

/-- The wording of a text that does not fit its tag. -/
def TextFault.message : TextFault → String
  | .boolean text => Text.quoted text
  | .empty => "string index out of range"
  | .number e => e.message
  | .timestamp => "'NoneType' object has no attribute 'groupdict'"
  | .collection => "expected string or bytes-like object, got 'list'"
  | .time e => e.message
  | .character code =>
      if code < 0x80000000 then "chr() arg not in range(0x110000)"
      else "Python int too large to convert to C int"

/-- Why a document is refused. -/
inductive Fault
  | character (code : Nat)
  | lexical (e : LexicalFault)
  | grammar (e : GrammarFault)
  | anchor (e : AnchorFault)
  | value (e : ValueFault)
  | text (e : TextFault)
  deriving DecidableEq, Repr, Inhabited

/-- The line that a refusal is reported with. -/
def Fault.message : Fault → String
  | .character code =>
      "unacceptable character #x" ++ String.ofList (Text.hexDigits 4 code)
        ++ ": special characters are not allowed"
  | .lexical e => e.message
  | .grammar e => e.message
  | .anchor e => e.message
  | .value e => e.message
  | .text e => e.message

end TreeReplica.Yaml
