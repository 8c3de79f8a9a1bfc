/-
A place in the text of a document: what is left of the text, how much was
passed over, and the line and column. The columns decide how block
collections nest; the index bounds the length of a key.

`Cursor.span` and `Cursor.dropWhile` pass over characters of a class.
-/
import TreeReplica.Yaml.Fault

namespace TreeReplica.Yaml

-- ============================================================= classes

/-- Does this character end a line? -/
def isBreak (c : Char) : Bool :=
  c = '\n' || c = '\x85' || c = '\u2028' || c = '\u2029'

/-- Is this a space, a tab or the end of a line? -/
def isGap (c : Char) : Bool := c = ' ' || c = '\t' || isBreak c

/-- Is this the end of a line or of the text? -/
def endsLine : Option Char → Bool
  | some c => isBreak c
  | none => true

/-- Is this a space or the end of a line or of the text? -/
def endsWord : Option Char → Bool
  | some c => c = ' ' || isBreak c
  | none => true

/-- Is this a gap or the end of the text? -/
def endsToken : Option Char → Bool
  | some c => isGap c
  | none => true

/-- Is this a letter, a digit, a hyphen or an underscore? All are
ASCII. -/
def isNameChar (c : Char) : Bool :=
  ('0' ≤ c && c ≤ '9') || ('A' ≤ c && c ≤ 'Z') || ('a' ≤ c && c ≤ 'z')
    || c = '-' || c = '_'

/-- May this character stand in a document? -/
def isAllowed (c : Char) : Bool :=
  let n := c.toNat
  n = 0x09 || n = 0x0a || n = 0x0d || (0x20 ≤ n && n ≤ 0x7e) || n = 0x85
    || (0xa0 ≤ n && n ≤ 0xfffd) || 0x10000 ≤ n

-- ============================================================= cursors

/-- A place in a text. -/
structure Cursor where
  rest : List Char
  index : Nat := 0
  line : Nat := 0
  column : Nat := 0
  deriving DecidableEq, Repr, Inhabited

namespace Cursor

/-- The next character. -/
def next? (c : Cursor) : Option Char := c.rest.head?

/-- The character after the next. -/
def second? (c : Cursor) : Option Char := c.rest[1]?

/-- Pass over one character. A byte-order mark has no width. -/
def step (c : Cursor) : Cursor :=
  match c.rest with
  | [] => c
  | x :: rest =>
      if isBreak x then
        { rest, index := c.index + 1, line := c.line + 1, column := 0 }
      else
        { c with
          rest, index := c.index + 1
          column := if x = '\ufeff' then c.column else c.column + 1 }

/-- Pass over `n` characters. -/
def skip (c : Cursor) : Nat → Cursor
  | 0 => c
  | n + 1 => c.step.skip n

/-- The characters of a class that come next, and the place after
them. -/
def span (c : Cursor) (p : Char → Bool) : List Char × Cursor :=
  let run := c.rest.takeWhile p
  (run, c.skip run.length)

/-- Pass over the characters of a class. -/
def dropWhile (c : Cursor) (p : Char → Bool) : Cursor := (c.span p).2

/-- Pass over spaces. -/
def dropSpaces (c : Cursor) : Cursor := c.dropWhile (· = ' ')

/-- Pass over a comment, if one starts here. -/
def dropComment (c : Cursor) : Cursor :=
  if c.next? = some '#' then c.dropWhile (!isBreak ·) else c

/-- Take the end of a line, if there is one. All but the line and
paragraph separators count as a line feed. -/
def takeBreak (c : Cursor) : List Char × Cursor :=
  match c.next? with
  | some x =>
      if isBreak x then
        ([if x = '\x85' then '\n' else x], c.step)
      else ([], c)
  | none => ([], c)

/-- Do the next three characters and what comes after them separate
documents? -/
def atSeparator (c : Cursor) : Bool :=
  let three := c.rest.take 3
  (three = ['-', '-', '-'] || three = ['.', '.', '.'])
    && endsToken c.rest[3]?

end Cursor

end TreeReplica.Yaml
