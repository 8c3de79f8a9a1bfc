/-
Sets of code points, kept as ordered tables of closed ranges.
-/
namespace TreeReplica.Text

/-- Does one of the ranges `lo ≤ i < hi` of the table hold `code`? The
ranges are in increasing order, so each step halves the part that is
left. -/
def inRangesBetween (table : Array (Nat × Nat)) (code lo hi : Nat) : Bool :=
  if lo < hi then
    match table[(lo + hi) / 2]? with
    | none => false
    | some (first, last) =>
        if code < first then inRangesBetween table code lo ((lo + hi) / 2)
        else if last < code then
          inRangesBetween table code ((lo + hi) / 2 + 1) hi
        else true
  else false
termination_by hi - lo

/-- Does one of the ranges of the table hold `code`? -/
def inRanges (table : Array (Nat × Nat)) (code : Nat) : Bool :=
  inRangesBetween table code 0 table.size

end TreeReplica.Text
