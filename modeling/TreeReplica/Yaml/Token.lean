/-
The tokens of a document: the marks of its structure, its scalars, and
the properties that stand before a node.
-/
namespace TreeReplica.Yaml

/-- A line that starts with a percent sign: the version of the language,
a handle that tags may be shortened with, or one that means nothing. -/
inductive Directive
  | version (major : Nat)
  | handle (handle tagStart : String)
  | reserved
  deriving DecidableEq, Repr, Inhabited

/-- A token. A tag has a handle unless it is written out, and a scalar is
plain if it has no quotes and is no block. -/
inductive Token
  | directive (d : Directive)
  | documentStart
  | documentEnd
  | streamEnd
  | blockSequenceStart
  | blockMappingStart
  | blockEnd
  | flowSequenceStart
  | flowSequenceEnd
  | flowMappingStart
  | flowMappingEnd
  | blockEntry
  | flowEntry
  | key
  | value
  | alias (name : String)
  | anchor (name : String)
  | tag (handle : Option String) (suffix : String)
  | scalar (text : String) (plain : Bool)
  deriving DecidableEq, Repr, Inhabited

/-- What a token is called. -/
def Token.word : Token → String
  | .directive _ => "<directive>"
  | .documentStart => "<document start>"
  | .documentEnd => "<document end>"
  | .streamEnd => "<stream end>"
  | .blockSequenceStart => "<block sequence start>"
  | .blockMappingStart => "<block mapping start>"
  | .blockEnd => "<block end>"
  | .flowSequenceStart => "["
  | .flowSequenceEnd => "]"
  | .flowMappingStart => "\x7b"
  | .flowMappingEnd => "\x7d"
  | .blockEntry => "-"
  | .flowEntry => ","
  | .key => "?"
  | .value => ":"
  | .alias _ => "<alias>"
  | .anchor _ => "<anchor>"
  | .tag _ _ => "<tag>"
  | .scalar _ _ => "<scalar>"

end TreeReplica.Yaml
