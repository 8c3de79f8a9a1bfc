/-
Quoted scalars. Between single quotes only the quote itself is written
twice; between double quotes a backslash starts an escape. A line end
becomes a space, each further one stays, and blanks around them are
dropped. Where documents are separated a quoted scalar is not closed.
-/
import TreeReplica.Yaml.Scalar.Plain

namespace TreeReplica.Yaml

/-- A step of reading from a place in a text. -/
abbrev Reading (α : Type) : Type := StateT Cursor (Except Fault) α

namespace Reading

/-- The next character. -/
def next? : Reading (Option Char) := return (← get).next?

/-- Refuse the text. -/
def refuse {α : Type} (e : LexicalFault) : Reading α := throw (.lexical e)

/-- Pass over spaces, a comment and the end of the line; nothing else may
be left on it. -/
def restOfLine (e : LexicalFault) : Reading Unit := do
  modify fun c => c.dropSpaces.dropComment
  if endsLine (← next?) then modify fun c => c.takeBreak.2 else refuse e

end Reading

open Reading

-- ============================================================= escapes

/-- The characters that one character after a backslash stands for. -/
def shortEscapes : List (Char × Char) :=
  [('0', '\x00'), ('a', '\x07'), ('b', '\x08'), ('t', '\t'), ('\t', '\t'),
    ('n', '\n'), ('v', '\x0b'), ('f', '\x0c'), ('r', '\r'), ('e', '\x1b'),
    (' ', ' '), ('"', '"'), ('\\', '\\'), ('/', '/'), ('N', '\x85'),
    ('_', '\xa0'), ('L', '\u2028'), ('P', '\u2029')]

/-- How many hexadecimal digits follow the letter of an escape. -/
def escapeWidths : List (Char × Nat) := [('x', 2), ('u', 4), ('U', 8)]

/-- A number of hexadecimal digits, and what they stand for. -/
def hexNumber (e : LexicalFault) (width : Nat) : Reading Nat := do
  let digits := (← get).rest.take width
  if digits.length = width && digits.all (Number.isDigitOf 16) then
    modify (·.skip width)
    return Number.valueOf 16 digits
  else refuse e

/-- The line ends after one that is passed over already, blanks dropped. -/
def quotedBreaks : Nat → Reading (List Char)
  | 0 => return []
  | bound + 1 => do
      if (← get).atSeparator then refuse .quotedScalar
      modify (·.dropWhile fun c => c = ' ' || c = '\t')
      let first ← modifyGet (·.takeBreak)
      if first.isEmpty then return []
      return first ++ (← quotedBreaks bound)

/-- What an escape stands for, from after its backslash. -/
def escape : Reading (List Char) := do
  let some c ← next? | refuse .escape
  match shortEscapes.lookup c, escapeWidths.lookup c with
  | some x, _ =>
      modify (·.step)
      return [x]
  | none, some width =>
      modify (·.step)
      let code ← hexNumber .escape width
      if code < 0x110000 then return [Char.ofNat code]
      else throw (.text (.character code))
  | none, none =>
      if isBreak c then
        modify (·.step)
        quotedBreaks ((← get).rest.length + 1)
      else refuse .escape

-- ================================================================ runs

/-- Text of a quoted scalar up to its closing quote, a blank or the end
of a line. -/
def quotedRun (double : Bool) : Nat → Reading (List Char)
  | 0 => return []
  | bound + 1 => do
      let plain ← modifyGet (·.span fun c =>
        !(isGap c || c = '\'' || c = '"' || c = '\\'))
      let c ← get
      match c.next? with
      | some '\\' =>
          modify (·.step)
          let piece ← if double then escape else pure ['\\']
          return plain ++ piece ++ (← quotedRun double bound)
      | some '\'' =>
          if double then
            modify (·.step)
            return plain ++ '\'' :: (← quotedRun double bound)
          else if c.second? = some '\'' then
            modify (·.skip 2)
            return plain ++ '\'' :: (← quotedRun double bound)
          else return plain
      | some '"' =>
          if double then return plain
          else
            modify (·.step)
            return plain ++ '"' :: (← quotedRun double bound)
      | _ => return plain

/-- The blanks or line ends between two runs. -/
def quotedGap : Reading (List Char) := do
  let blanks ← modifyGet (·.span fun c => c = ' ' || c = '\t')
  let some c ← next? | refuse .quotedScalar
  if isBreak c then
    let first ← modifyGet (·.takeBreak)
    return foldBreaks first (← quotedBreaks ((← get).rest.length + 1))
  else return blanks

/-- The runs and gaps up to the closing quote. -/
def quotedBody (double : Bool) : Nat → Reading (List Char)
  | 0 => return []
  | bound + 1 => do
      let run ← quotedRun double ((← get).rest.length + 1)
      if (← next?) = some (if double then '"' else '\'') then return run
      let gap ← quotedGap
      return run ++ gap ++ (← quotedBody double bound)

/-- Read the quoted scalar that starts here. -/
def quotedScalar (double : Bool) : Reading String := do
  modify (·.step)
  let text ← quotedBody double ((← get).rest.length + 1)
  modify (·.step)
  return String.ofList text

end TreeReplica.Yaml
