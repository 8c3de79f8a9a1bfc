/-
Block scalars: indented lines after `|`, which keeps the line ends, or
`>`, which folds them. A header may say how far the lines are indented
and what becomes of the line ends after the last line: by default one
stays, with `-` none, with `+` all.
-/
import TreeReplica.Yaml.Scalar.Quoted

namespace TreeReplica.Yaml

open Reading

-- ============================================================== header

/-- What becomes of the line ends after the last line. -/
inductive Chomping
  | strip
  | clip
  | keep
  deriving DecidableEq, Repr, Inhabited

/-- The header of a block scalar. -/
structure BlockHeader where
  chomping : Chomping := .clip
  increment : Option Nat := none
  deriving DecidableEq, Repr, Inhabited

/-- The chomping indicator, if one comes next. -/
def readChomping : Reading (Option Chomping) := do
  match ← next? with
  | some '+' => modify (·.step); return some .keep
  | some '-' => modify (·.step); return some .strip
  | _ => return none

/-- The indentation indicator, if one comes next. It is not zero. -/
def readIncrement : Reading (Option Nat) := do
  match ← next? with
  | some c =>
      if Number.isDigit c then
        if c = '0' then refuse .blockScalar
        modify (·.step)
        return some (Number.valueOf 10 [c])
      else return none
  | none => return none

/-- The indicators of a header, in either order. -/
def readHeader : Reading BlockHeader := do
  let header : BlockHeader ← match ← readChomping with
    | some chomping =>
        pure { chomping, increment := ← readIncrement }
    | none =>
        let increment ← readIncrement
        let chomping ← if increment.isSome then readChomping else pure none
        pure { chomping := chomping.getD .clip, increment }
  if endsWord (← next?) then return header else refuse .blockScalar

-- =============================================================== lines

/-- The line ends before the first line, and the widest indentation among
them. -/
def blockStart : Nat → Nat → Reading (List Char × Nat)
  | 0, widest => return ([], widest)
  | bound + 1, widest => do
      if (← next?) = some ' ' then
        modify (·.step)
        blockStart bound (max widest (← get).column)
      else
        let first ← modifyGet (·.takeBreak)
        if first.isEmpty then return ([], widest)
        let (further, widest) ← blockStart bound widest
        return (first ++ further, widest)

/-- Pass over spaces up to a column. -/
def dropIndent (indent : Nat) : Nat → Cursor → Cursor
  | 0, c => c
  | bound + 1, c =>
      if c.column < indent && c.next? = some ' ' then
        dropIndent indent bound c.step
      else c

/-- The line ends before the next line, and its indentation. -/
def blockBreaks (indent : Nat) : Nat → Reading (List Char)
  | 0 => return []
  | bound + 1 => do
      modify (dropIndent indent indent)
      let first ← modifyGet (·.takeBreak)
      if first.isEmpty then return []
      return first ++ (← blockBreaks indent bound)

/-- Does the next line belong to the block? -/
def inBlock (indent : Nat) (c : Cursor) : Bool :=
  c.column = indent && c.next?.isSome

/-- A line that starts with a blank is not folded. -/
def startsBlank (c : Cursor) : Bool :=
  c.next? = some ' ' || c.next? = some '\t'

/-- The lines of a block scalar. `before` are the line ends before the
next line. -/
def blockLines (folded : Bool) (chomping : Chomping) (indent : Nat) :
    Nat → List Char → Reading (List Char)
  | 0, _ => return []
  | bound + 1, before => do
      let blank := startsBlank (← get)
      let line ← modifyGet (·.span (!isBreak ·))
      let ending ← modifyGet (·.takeBreak)
      let further ← blockBreaks indent ((← get).rest.length + 1)
      let c ← get
      if inBlock indent c then
        let joint :=
          if folded && ending = ['\n'] && !blank && !startsBlank c then
            if further.isEmpty then [' '] else []
          else ending
        return before ++ line ++ joint
          ++ (← blockLines folded chomping indent bound further)
      else
        return before ++ line ++ match chomping with
          | .strip => []
          | .clip => ending
          | .keep => ending ++ further

/-- Read the block scalar that starts here, inside a block that is
indented by `indent`. -/
def blockScalar (folded : Bool) (indent : Int) : Reading String := do
  modify (·.step)
  let header ← readHeader
  restOfLine .blockScalar
  let least : Nat := max 1 (indent + 1).toNat
  let bound := (← get).rest.length + 1
  let (before, indent) ← match header.increment with
    | some increment =>
        let indent := least + increment - 1
        pure (← blockBreaks indent bound, indent)
    | none =>
        let (before, widest) ← blockStart bound 0
        pure (before, max least widest)
  if inBlock indent (← get) then
    return String.ofList
      (← blockLines folded header.chomping indent bound before)
  else
    return String.ofList (if header.chomping = .keep then before else [])

end TreeReplica.Yaml
