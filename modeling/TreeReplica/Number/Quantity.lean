/-
Quantities in settings, such as seconds: a whole number keeps being
written without a point.
-/
import TreeReplica.Number.Shortest

namespace TreeReplica.Number

/-- A whole or binary number. -/
inductive Quantity
  | whole (n : Int)
  | binary (x : Float)
  deriving Inhabited

/-- The text of a quantity. -/
def Quantity.text : Quantity → String
  | .whole n => toString n
  | .binary x => Number.text x

/-- The quantity as a binary number; a whole number out of range becomes
infinite. -/
def Quantity.toFloat : Quantity → Float
  | .whole n => nearest (n < 0) n.natAbs 1
  | .binary x => x

end TreeReplica.Number
