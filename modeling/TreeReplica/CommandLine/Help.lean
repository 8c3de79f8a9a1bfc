/-
The texts that a program shows about its command line: the usage, and the
help, which lists the flags in two columns.

Lines are as wide as `textWidth`. The second column starts after the
widest flag, but no further right than `mostIndent`; a flag that reaches
into it has its text on the next line.
-/
import TreeReplica.CommandLine.Flag

namespace TreeReplica.CommandLine

-- ============================================================ wrapping

/-- The width of a line. -/
def textWidth : Nat := 78

/-- The right-most start of the second column. -/
def mostIndent : Nat := 24

/-- As many spaces. -/
def spaces (n : Nat) : String := String.ofList (List.replicate n ' ')

/-- Words in lines. A line takes words while they fit into `width`, and
at least one. `used` is how much of the first line is taken already. -/
def wrapFrom (width : Nat) (line : List String) (used : Nat) :
    List String → List (List String)
  | [] => if line.isEmpty then [] else [line]
  | word :: rest =>
      let gap := if line.isEmpty then 0 else 1
      if !line.isEmpty && width < used + gap + word.length then
        line :: wrapFrom width [word] word.length rest
      else wrapFrom width (line ++ [word]) (used + gap + word.length) rest

/-- A text in lines. -/
def wrap (width : Nat) (text : String) : List String :=
  let words := (text.splitOn " ").filter (· ≠ "")
  (wrapFrom width [] 0 words).map fun line => " ".intercalate line

-- =============================================================== usage

/-- How a flag is written under one of its names. -/
def Flag.form (f : Flag) (name : String) : String :=
  match f.kind with
  | .value placeholder => name ++ " " ++ placeholder
  | _ => name

/-- A flag in the usage. -/
def Flag.usage (f : Flag) : String := "[" ++ f.form (f.names.headD "") ++ "]"

/-- How a program is called. Further lines start below the first flag. -/
def Interface.usage (i : Interface) : String :=
  let start := "usage: " ++ i.program
  let indent := start.length + 1
  let lines := wrapFrom (textWidth - indent) [] 0 (i.flags.map Flag.usage)
  start ++ " "
    ++ ("\n" ++ spaces indent).intercalate
        (lines.map fun line => " ".intercalate line)
    ++ "\n"

-- ================================================================ help

/-- A flag with all its names. -/
def Flag.forms (f : Flag) : String :=
  ", ".intercalate (f.names.map f.form)

/-- Where the second column starts. -/
def Interface.column (i : Interface) : Nat :=
  let widest := i.flags.foldl (fun n f => max n f.forms.length) 0
  min (widest + 4) mostIndent

/-- A flag in the list of flags. -/
def Flag.entry (column : Nat) (f : Flag) : List String :=
  let lines := wrap (textWidth - column) f.about
  let indented := lines.map (spaces column ++ ·)
  let head := "  " ++ f.forms
  if head.length + 2 ≤ column then
    match lines with
    | [] => [head]
    | first :: _ =>
        (head ++ spaces (column - head.length) ++ first) :: indented.drop 1
  else head :: indented

/-- The help of a program. -/
def Interface.help (i : Interface) : String :=
  let entries := i.flags.flatMap (Flag.entry i.column)
  let lines :=
    [i.usage] ++ wrap textWidth i.about ++ ["", "options:"] ++ entries
  "\n".intercalate lines ++ "\n"

end TreeReplica.CommandLine
