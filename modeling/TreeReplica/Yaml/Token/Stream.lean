/-
A text as tokens. Three things are known at each place: how deep it is in
flow collections, the columns of the block collections around it, and the
tokens that may turn out to be a key.

A key without a question mark is seen only at the colon after it, so a
token that may be a key waits, with all tokens after it, until the colon
comes or can no longer come: a key is on one line and short. A token that
waits is not handed out, so where a text stops being tokens, `tokens`
gives those before the place together with the fault, and a reader that
never gets there does not notice it.
-/
import TreeReplica.Yaml.Scalar.Block
import TreeReplica.Yaml.Token.Property

namespace TreeReplica.Yaml

-- =============================================================== state

/-- A token that may be a key: its number, where it starts, and whether
nothing else than a key may start there. -/
structure Candidate where
  token : Nat
  required : Bool
  index : Nat
  line : Nat
  column : Nat
  deriving DecidableEq, Repr, Inhabited

/-- What is known at a place of the text. The outermost indentation is
`-1`; `waiting` are the tokens that are not handed out, the first of which
has the number `handedOut`. -/
structure Lexer where
  cursor : Cursor
  depth : Nat := 0
  indent : Int := -1
  outer : List Int := []
  keyAllowed : Bool := true
  /-- The candidates, by the depth that they stand at. -/
  candidates : List (Nat × Candidate) := []
  waiting : List Token := []
  handedOut : Nat := 0
  finished : Bool := false
  deriving Inhabited

namespace Lexer

/-- The longest key. -/
def keyLimit : Nat := 1024

variable (s : Lexer)

/-- The column as an indentation. -/
def column : Int := (s.cursor.column : Int)

/-- Add a token. -/
def push (t : Token) : Lexer := { s with waiting := s.waiting ++ [t] }

/-- Pass over `n` characters that are a token. -/
def pushMark (t : Token) (n : Nat) : Lexer :=
  { s with waiting := s.waiting ++ [t], cursor := s.cursor.skip n }

-- ========================================================== candidates

/-- Can the colon no longer come? -/
def isStale (k : Candidate) : Bool :=
  k.line ≠ s.cursor.line || keyLimit < s.cursor.index - k.index

/-- Drop the candidates that are no keys. -/
def dropStale : Except Fault Lexer :=
  if s.candidates.any fun (_, k) => k.required && s.isStale k then
    .error (.lexical .simpleKey)
  else
    .ok { s with
      candidates := s.candidates.filter fun (_, k) => !s.isStale k }

/-- Drop the candidate at the present depth. -/
def dropCandidate : Except Fault Lexer :=
  match s.candidates.lookup s.depth with
  | some k =>
      if k.required then .error (.lexical .simpleKey)
      else .ok { s with
        candidates := s.candidates.filter fun (d, _) => d ≠ s.depth }
  | none => .ok s

/-- Note that the next token may be a key. -/
def addCandidate : Except Fault Lexer :=
  if s.keyAllowed then do
    let s ← s.dropCandidate
    let k : Candidate :=
      { token := s.handedOut + s.waiting.length
        required := s.depth = 0 && s.indent = s.column
        index := s.cursor.index
        line := s.cursor.line
        column := s.cursor.column }
    .ok { s with candidates := (s.depth, k) :: s.candidates }
  else .ok s

/-- Put a token in front of the one that a candidate names. -/
def insertAt (k : Candidate) (t : Token) : Lexer :=
  let n := k.token - s.handedOut
  { s with waiting := s.waiting.take n ++ t :: s.waiting.drop n }

-- ========================================================= indentation

/-- The indentations around a column, and how many end at it. -/
def unwound (column : Int) : Int → List Int → Int × List Int × Nat
  | indent, [] => (indent, [], 0)
  | indent, next :: outer =>
      if column < indent then
        let (indent, outer, n) := unwound column next outer
        (indent, outer, n + 1)
      else (indent, next :: outer, 0)

/-- End the block collections that are indented more than `column`. -/
def unwind (column : Int) : Lexer :=
  if s.depth ≠ 0 then s
  else
    let (indent, outer, n) := unwound column s.indent s.outer
    { s with
      indent, outer
      waiting := s.waiting ++ List.replicate n .blockEnd }

/-- Does a block collection start at this column? -/
def indents (column : Int) : Bool := s.indent < column

/-- Start a block collection at `column`. -/
def enter (column : Int) : Lexer :=
  { s with indent := column, outer := s.indent :: s.outer }

/-- Start a block collection here with its token, unless one is open at
this column. -/
def openBlock (t : Token) : Lexer :=
  if s.indents s.column then (s.enter s.column).push t else s

-- ============================================================== tokens

/-- End the text. -/
def endText : Except Fault Lexer := do
  let s ← (s.unwind (-1)).dropCandidate
  .ok { s.push .streamEnd with
    keyAllowed := false, candidates := [], finished := true }

/-- Read a token that a key cannot start with, from the edge of the
text. -/
def atEdge (read : Reading Token) : Except Fault Lexer := do
  let s ← (s.unwind (-1)).dropCandidate
  let (t, cursor) ← read s.cursor
  .ok { s.push t with cursor, keyAllowed := false }

/-- A mark between documents. -/
def separator (t : Token) : Except Fault Lexer :=
  s.atEdge do
    modify (·.skip 3)
    return t

/-- Start a flow collection. -/
def openFlow (t : Token) : Except Fault Lexer := do
  let s ← s.addCandidate
  .ok { s.pushMark t 1 with depth := s.depth + 1, keyAllowed := true }

/-- End a flow collection. -/
def closeFlow (t : Token) : Except Fault Lexer := do
  let s ← s.dropCandidate
  .ok { s.pushMark t 1 with depth := s.depth - 1, keyAllowed := false }

/-- The comma in a flow collection. -/
def flowEntry : Except Fault Lexer := do
  let s ← s.dropCandidate
  .ok { s.pushMark .flowEntry 1 with keyAllowed := true }

/-- The hyphen before an entry of a block sequence. In a flow collection
it is left to the structure to refuse it. -/
def blockEntry : Except Fault Lexer := do
  if s.depth = 0 && !s.keyAllowed then throw (.lexical .sequenceEntry)
  let s := if s.depth = 0 then s.openBlock .blockSequenceStart else s
  let s ← s.dropCandidate
  .ok { s.pushMark .blockEntry 1 with keyAllowed := true }

/-- The question mark before a key. -/
def explicitKey : Except Fault Lexer := do
  if s.depth = 0 && !s.keyAllowed then throw (.lexical .mappingKey)
  let s := if s.depth = 0 then s.openBlock .blockMappingStart else s
  let s ← s.dropCandidate
  .ok { s.pushMark .key 1 with keyAllowed := s.depth = 0 }

/-- The colon before a value. It turns a candidate into a key, which may
start a block mapping. -/
def mappingValue : Except Fault Lexer := do
  match s.candidates.lookup s.depth with
  | some k =>
      let s := s.insertAt k .key
      let column : Int := (k.column : Int)
      let s :=
        if s.depth = 0 && s.indents column then
          (s.enter column).insertAt k .blockMappingStart
        else s
      .ok { s.pushMark .value 1 with
        keyAllowed := false
        candidates := s.candidates.filter fun (d, _) => d ≠ s.depth }
  | none =>
      if s.depth = 0 && !s.keyAllowed then throw (.lexical .mappingValue)
      let s := if s.depth = 0 then s.openBlock .blockMappingStart else s
      .ok { s.pushMark .value 1 with keyAllowed := s.depth = 0 }

/-- Read a token that may be a key. -/
def word (read : Reading Token) : Except Fault Lexer := do
  let s ← s.addCandidate
  let (t, cursor) ← read s.cursor
  .ok { s.push t with cursor, keyAllowed := false }

/-- A plain scalar. If a line ended after it, a key may come next. -/
def plainScalar : Except Fault Lexer := do
  let s ← s.addCandidate
  let scalar := plain (s.depth ≠ 0) (s.indent + 1) s.cursor
  .ok { s.push (.scalar (String.ofList scalar.text) true) with
    cursor := scalar.after, keyAllowed := scalar.brokeLine }

/-- A block scalar. -/
def block (folded : Bool) : Except Fault Lexer := do
  let s ← s.dropCandidate
  let (text, cursor) ← blockScalar folded s.indent s.cursor
  .ok { s.push (.scalar text false) with cursor, keyAllowed := true }

/-- Does a plain scalar start here? -/
def startsPlain : Bool :=
  match s.cursor.next? with
  | none => false
  | some c =>
      !(isGap c || "-?:,[]\x7b\x7d#&*!|>'\"%@\x60".toList.contains c)
        || (!endsToken s.cursor.second?
          && (c = '-' || (s.depth = 0 && (c = '?' || c = ':'))))

/-- Does a mark that is followed by a gap stand here? In a flow
collection some marks need none. -/
def isMark (alsoInFlow : Bool) : Bool :=
  (alsoInFlow && s.depth ≠ 0) || endsToken s.cursor.second?

/-- Read the tokens that start with the next character. -/
def readToken : Except Fault Lexer :=
  let edge := s.cursor.column = 0
  match s.cursor.next? with
  | none => s.endText
  | some c =>
      if c = '%' && edge then s.atEdge readDirective
      else if c = '-' && edge && s.cursor.atSeparator then
        s.separator .documentStart
      else if c = '.' && edge && s.cursor.atSeparator then
        s.separator .documentEnd
      else if c = '[' then s.openFlow .flowSequenceStart
      else if c = '\x7b' then s.openFlow .flowMappingStart
      else if c = ']' then s.closeFlow .flowSequenceEnd
      else if c = '\x7d' then s.closeFlow .flowMappingEnd
      else if c = ',' then s.flowEntry
      else if c = '-' && s.isMark false then s.blockEntry
      else if c = '?' && s.isMark true then s.explicitKey
      else if c = ':' && s.isMark true then s.mappingValue
      else if c = '*' then s.word (readAnchor .alias .alias)
      else if c = '&' then s.word (readAnchor .anchor .anchor)
      else if c = '!' then s.word readTag
      else if c = '|' && s.depth = 0 then s.block false
      else if c = '>' && s.depth = 0 then s.block true
      else if c = '\'' || c = '"' then
        s.word do return .scalar (← quotedScalar (c = '"')) false
      else if s.startsPlain then s.plainScalar
      else .error (.lexical .token)

/-- Pass over spaces, comments and line ends. After a line end outside of
flow collections a key may come. -/
def toNextToken : Nat → Lexer → Lexer
  | 0, s => s
  | bound + 1, s =>
      let c := s.cursor.dropSpaces.dropComment
      let (ending, c) := c.takeBreak
      if ending.isEmpty then { s with cursor := c }
      else
        toNextToken bound
          { s with cursor := c, keyAllowed := s.keyAllowed || s.depth = 0 }

/-- Read the next tokens. -/
def advance : Except Fault Lexer := do
  let s ← (toNextToken (s.cursor.rest.length + 1) s).dropStale
  (s.unwind s.column).readToken

-- ============================================================== stream

/-- How many tokens need not wait. -/
def ready : Nat :=
  s.candidates.foldl (fun n (_, k) => min n (k.token - s.handedOut))
    s.waiting.length

/-- The tokens from here on, with the fault that ends them. Each step
passes over a character, or ends the text. -/
def run : Nat → Lexer → List Token × Option Fault
  | 0, _ => ([], none)
  | bound + 1, s =>
      match s.advance with
      | .error e => ([], some e)
      | .ok s =>
          if s.finished then (s.waiting, none)
          else match s.dropStale with
            | .error e => ([], some e)
            | .ok s =>
                let n := s.ready
                let (more, fault) := run bound
                  { s with
                    waiting := s.waiting.drop n
                    handedOut := s.handedOut + n }
                (s.waiting.take n ++ more, fault)

end Lexer

/-- The tokens of a text, with the fault that ends them if the text does
not. A byte-order mark in front is passed over. -/
def tokens (text : List Char) : List Token × Option Fault :=
  let start : Cursor := { rest := text }
  let start := if start.next? = some '\ufeff' then start.step else start
  Lexer.run (text.length + 2) { cursor := start }

end TreeReplica.Yaml
