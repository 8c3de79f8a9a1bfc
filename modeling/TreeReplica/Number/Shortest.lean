/-
The shortest decimal text of a binary number: the fewest digits that read
back as the same number, and of those the ones nearest to its value.

`shortestDigits` looks for them on the decimal grids of one digit, two
digits and so on. If any point of a grid reads back, one of the two
neighbours of the value on that grid does, so only those are tried.
-/
import TreeReplica.Number.Double

namespace TreeReplica.Number

-- ============================================================== digits

/-- A quotient of naturals. -/
structure Ratio where
  num : Nat
  den : Nat

/-- `n * 10 ^ e` as a quotient. -/
def Ratio.decimal (n : Nat) (e : Int) : Ratio :=
  if 0 ≤ e then ⟨n * Nat.pow 10 e.toNat, 1⟩ else ⟨n, Nat.pow 10 (-e).toNat⟩

/-- `n * 2 ^ e` as a quotient. -/
def Ratio.binary (n : Nat) (e : Int) : Ratio :=
  if 0 ≤ e then ⟨n * Nat.pow 2 e.toNat, 1⟩ else ⟨n, Nat.pow 2 (-e).toNat⟩

/-- Is one quotient below another? -/
def Ratio.lt (a b : Ratio) : Bool := a.num * b.den < b.num * a.den

/-- The distance of two quotients, over the product of their
denominators. -/
def Ratio.gap (a b : Ratio) : Nat :=
  (a.num * b.den - b.num * a.den) + (b.num * a.den - a.num * b.den)

/-- The number of decimal places in front of the point of a quotient:
the least `e` with `r < 10 ^ e`. It is found from an estimate that is at
most one too small. -/
def Ratio.magnitude (r : Ratio) (estimate : Int) : Int :=
  if r.lt (.decimal 1 estimate) then estimate
  else if r.lt (.decimal 1 (estimate + 1)) then estimate + 1
  else estimate + 2

/-- Which quotients read back as `mantissa * 2 ^ exponent`: those between
the midpoints to its two neighbours, the midpoints too if the mantissa is
even. Below a power of two the lower neighbour is only half as far. -/
def readsBack (mantissa : Nat) (exponent : Int) (r : Ratio) : Bool :=
  let narrow := mantissa = hiddenBit && exponent ≠ leastExponent
  let low := Ratio.binary (4 * mantissa - (if narrow then 1 else 2))
    (exponent - 2)
  let high := Ratio.binary (4 * mantissa + 2) (exponent - 2)
  if mantissa % 2 = 0 then !r.lt low && !high.lt r
  else low.lt r && r.lt high

/-- The digits of a positive number `mantissa * 2 ^ exponent` on the grid
of `count` digits, if a point of that grid reads back. -/
def digitsOn (mantissa : Nat) (exponent place : Int) (count : Nat) :
    Option Nat :=
  let value := Ratio.binary mantissa exponent
  let unit := place - (count : Int)
  let cell : Ratio := Ratio.decimal 1 unit
  let below := value.num * cell.den / (value.den * cell.num)
  let good (n : Nat) : Bool := readsBack mantissa exponent (.decimal n unit)
  let a := Ratio.decimal below unit
  let b := Ratio.decimal (below + 1) unit
  let gapBelow := value.gap a
  let gapAbove := value.gap b
  match good below, good (below + 1) with
  | false, false => none
  | true, false => some below
  | false, true => some (below + 1)
  | true, true =>
      if gapBelow < gapAbove then some below
      else if gapAbove < gapBelow then some (below + 1)
      else if below % 2 = 0 then some below else some (below + 1)

/-- The shortest digits of a positive number, and the number of decimal
places in front of the point: the value is near `0.digits * 10 ^ place`.
Seventeen digits always read back. -/
def shortestDigits (mantissa : Nat) (exponent : Int) : Nat × Int :=
  let r := Ratio.binary mantissa exponent
  let log := (mantissa.log2 : Int) + exponent
  let place := r.magnitude (Int.fdiv (log * 30103) 100000)
  let found := (List.range 17).findSome? fun i =>
    (digitsOn mantissa exponent place (i + 1)).map fun n => (n, i + 1)
  match found with
  | none => (0, place)
  | some (n, count) =>
      -- a run of nines may have rounded up to one digit more
      if n = Nat.pow 10 count then (1, place + 1) else (n, place)

-- ================================================================ text

/-- The digits without the zeros at their end. -/
def trimZeros (digits : List Char) : List Char :=
  (digits.reverse.dropWhile (· = '0')).reverse

/-- How decimal numbers are written: with a point and at least one digit
on both sides of it while the first digit stands no more than sixteen
places before the point and no more than four behind it, and with an
exponent of at least two digits and a sign otherwise. -/
def decimalText (digits : List Char) (place : Int) : String :=
  let digits := if trimZeros digits = [] then ['0'] else trimZeros digits
  let count : Int := (digits.length : Int)
  if -4 < place && place ≤ 16 then
    if place ≤ 0 then
      "0." ++ String.ofList (List.replicate (-place).toNat '0' ++ digits)
    else if count ≤ place then
      String.ofList (digits ++ List.replicate (place - count).toNat '0')
        ++ ".0"
    else
      String.ofList (digits.take place.toNat) ++ "."
        ++ String.ofList (digits.drop place.toNat)
  else
    let power := place - 1
    let size := toString power.natAbs
    let padded := if size.length < 2 then "0" ++ size else size
    let tail := if count = 1 then ""
      else "." ++ String.ofList (digits.drop 1)
    String.ofList (digits.take 1) ++ tail ++ "e"
      ++ (if power < 0 then "-" else "+") ++ padded

/-- The text of a binary number. -/
def text (x : Float) : String :=
  match shapeOf x with
  | .notANumber => "nan"
  | .infinite negative => if negative then "-inf" else "inf"
  | .finite negative mantissa exponent =>
      let sign := if negative then "-" else ""
      if mantissa = 0 then sign ++ "0.0"
      else
        let (n, place) := shortestDigits mantissa exponent
        sign ++ decimalText (toString n).toList place

end TreeReplica.Number
