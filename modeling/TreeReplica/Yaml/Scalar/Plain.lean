/-
Plain scalars: text without quotes. It ends before a comment, before a
colon that ends a key, and in a flow collection before its punctuation. A
line end inside becomes a space, and each further one stays; in a block
the lines after the first must be indented.
-/
import TreeReplica.Yaml.Cursor

namespace TreeReplica.Yaml

/-- The punctuation of flow collections. -/
def isFlowMark (c : Char) : Bool :=
  c = ',' || c = '[' || c = ']' || c = '\x7b' || c = '\x7d'

/-- The characters up to the next gap or the end of a plain scalar. -/
def plainRun (inFlow : Bool) : List Char → List Char
  | [] => []
  | c :: rest =>
      let endsKey := c = ':' && (endsToken rest.head?
        || (inFlow && rest.head?.any isFlowMark))
      if isGap c || endsKey || (inFlow && (c = '?' || isFlowMark c)) then []
      else c :: plainRun inFlow rest

/-- What line ends turn into: a lone line feed becomes a space, and the
first of several is dropped. -/
def foldBreaks (first : List Char) (further : List Char) : List Char :=
  if first ≠ ['\n'] then first ++ further
  else if further.isEmpty then [' ']
  else further

/-- The gap after a run of a plain scalar: its text, which is empty where
the scalar ends, and whether a line ended in it. -/
structure PlainGap where
  text : List Char
  brokeLine : Bool
  after : Cursor

/-- The line ends and spaces at the start of further lines, or `none`
where documents are separated. -/
def plainBreaks : Nat → Cursor → Option (List Char) × Cursor
  | 0, c => (some [], c)
  | bound + 1, c =>
      match c.next? with
      | some ' ' => plainBreaks bound c.step
      | _ =>
          match c.takeBreak with
          | ([], _) => (some [], c)
          | (end_, c) =>
              if c.atSeparator then (none, c)
              else
                let (more, c) := plainBreaks bound c
                (more.map (end_ ++ ·), c)

/-- The gap that starts here. -/
def plainGap (c : Cursor) : PlainGap :=
  let (spaces, c) := c.span (· = ' ')
  match c.takeBreak with
  | ([], _) => ⟨spaces, false, c⟩
  | (first, c) =>
      if c.atSeparator then ⟨[], true, c⟩
      else match plainBreaks c.rest.length c with
        | (none, c) => ⟨[], true, c⟩
        | (some further, c) => ⟨foldBreaks first further, true, c⟩

/-- A plain scalar that was read: its text, and whether a line ended
after it. -/
structure Plain where
  text : List Char
  brokeLine : Bool
  after : Cursor

/-- Read on in a plain scalar after `gap`. -/
def plainFrom (inFlow : Bool) (indent : Int) :
    Nat → PlainGap → Plain
  | 0, gap => ⟨[], gap.brokeLine, gap.after⟩
  | bound + 1, gap =>
      let c := gap.after
      let run :=
        if c.next? = some '#' then [] else plainRun inFlow c.rest
      if run.isEmpty then ⟨[], gap.brokeLine, c⟩
      else
        let next := plainGap (c.skip run.length)
        let ends := next.text.isEmpty || next.after.next? = some '#'
          || (!inFlow && (next.after.column : Int) < indent)
        if ends then ⟨gap.text ++ run, next.brokeLine, next.after⟩
        else
          let tail := plainFrom inFlow indent bound next
          { tail with text := gap.text ++ run ++ tail.text }

/-- Read the plain scalar that starts here. Lines after the first are
indented by `indent` in a block. -/
def plain (inFlow : Bool) (indent : Int) (c : Cursor) : Plain :=
  plainFrom inFlow indent (c.rest.length + 1) ⟨[], false, c⟩

end TreeReplica.Yaml
