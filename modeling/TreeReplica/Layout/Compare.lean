/-
The differences between an expected layout and the one that is there: one
problem for each path on which the two maps differ, and none for a path
on which they agree. Problems with expected paths come first, then the
paths that nothing expected, both in the order of their code points.
-/
import TreeReplica.Layout.Basic

namespace TreeReplica.Layout

/-- One difference between two layouts. -/
inductive Problem
  | missing (path : String) (want : Item)
  | kind (path : String) (want : Item)
  | content (path : String) (want actual : Bytes)
  | extra (path : String)
  deriving DecidableEq, Repr, Inhabited

/-- The wording of a problem. -/
def Problem.message : Problem → String
  | .missing path want => s!"missing {want.word}: {path}"
  | .kind path want => s!"kind mismatch: {path} (expected={want.word})"
  | .content path want actual =>
      s!"content mismatch: {path} (expected={want.length} bytes, "
        ++ s!"actual={actual.length} bytes)"
  | .extra path => s!"extra entry not in tree: {path}"

/-- What is wrong at one expected path. -/
def differenceAt (path : String) (want : Item) :
    Option Item → Option Problem
  | none => some (.missing path want)
  | some actual =>
      match want, actual with
      | .directory, .directory => none
      | .file a, .file b => if a = b then none else some (.content path a b)
      | _, _ => some (.kind path want)

/-- Paths in the order of their code points. -/
def pathLE (a b : String) : Bool := !decide (b < a)

/-- The differences between two layouts. -/
def compare (expected actual : Layout) : List Problem :=
  let wanted := expected.entries.mergeSort fun a b => pathLE a.1 b.1
  let found := wanted.filterMap fun (path, want) =>
    differenceAt path want (actual.get? path)
  let unexpected := actual.paths.filter fun path =>
    (expected.get? path).isNone
  found ++ (unexpected.mergeSort pathLE).map .extra

end TreeReplica.Layout
