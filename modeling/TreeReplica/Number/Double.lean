/-
Numbers in binary floating point, taken apart and put together exactly.

`shapeOf` reads the sign, mantissa and exponent out of the sixty-four
bits of a number. `nearest` goes the other way: it gives the number that
is closest to a quotient of naturals, the even one of two that are
equally close, with integer arithmetic only.
-/
namespace TreeReplica.Number

/-- What a binary number is: `mantissa * 2 ^ exponent` with a sign, an
infinity, or no number at all. -/
inductive Shape
  | finite (negative : Bool) (mantissa : Nat) (exponent : Int)
  | infinite (negative : Bool)
  | notANumber
  deriving DecidableEq, Repr, Inhabited

/-- The bits of the fraction. -/
def fractionBits : Nat := 52

/-- The leading bit of a full mantissa, which the fraction leaves out. -/
def hiddenBit : Nat := Nat.pow 2 fractionBits

/-- The number of exponents that the bits can hold; the last stands for
what is not finite. -/
def exponentCount : Nat := 2048

/-- The bit of the sign. -/
def signBit : Nat := 0x8000000000000000

/-- The exponent of the smallest positive number. -/
def leastExponent : Int := -1074

/-- Take a number apart. -/
def shapeOf (x : Float) : Shape :=
  let bits := x.toBits.toNat
  let negative := bits / signBit = 1
  let exponent : Nat := bits / hiddenBit % exponentCount
  let fraction := bits % hiddenBit
  if exponent = exponentCount - 1 then
    if fraction = 0 then .infinite negative else .notANumber
  else if exponent = 0 then .finite negative fraction leastExponent
  else
    .finite negative (hiddenBit + fraction)
      (leastExponent + (exponent : Int) - 1)

/-- `num / den` rounded to a natural, a half to the even neighbour. -/
def roundHalfEven (num den : Nat) : Nat :=
  let q := num / den
  let r := num % den
  if den < 2 * r || (2 * r = den && q % 2 = 1) then q + 1 else q

/-- The quotient of `num` by `den * 2 ^ exponent`, as a pair of
naturals. -/
def scaled (num den : Nat) (exponent : Int) : Nat × Nat :=
  if 0 ≤ exponent then (num, den * Nat.pow 2 exponent.toNat)
  else (num * Nat.pow 2 (-exponent).toNat, den)

/-- The exponent at which the mantissa of `num / den` has its full
number of bits, or the least exponent if that is larger. -/
def exponentFor (num den : Nat) : Int :=
  let guess : Int :=
    (num.log2 : Int) - (den.log2 : Int) - (fractionBits : Int) - 1
  let (n, d) := scaled num den guess
  let fit := if n / d < 2 * hiddenBit then guess else guess + 1
  max fit leastExponent

/-- The bits of infinity without the sign. -/
def infiniteBits : Nat := (exponentCount - 1) * hiddenBit

/-- The number of a sign and bits without the sign. -/
def ofMagnitude (negative : Bool) (magnitude : Nat) : Float :=
  let sign := if negative then signBit else 0
  Float.ofBits (UInt64.ofNat (sign + magnitude))

/-- Infinity of a sign. -/
def infinity (negative : Bool) : Float := ofMagnitude negative infiniteBits

/-- The binary number nearest to `num / den`, a half going to the even
one; beyond the largest number it is infinite. `den` must not be zero. -/
def nearest (negative : Bool) (num den : Nat) : Float :=
  let magnitude : Nat :=
    if num = 0 then 0
    else
      let exponent := exponentFor num den
      let (n, d) := scaled num den exponent
      (exponent - leastExponent).toNat * hiddenBit + roundHalfEven n d
  ofMagnitude negative (min magnitude infiniteBits)

/-- The binary number nearest to an integer, or `none` if it would be
infinite. -/
def ofInteger (n : Int) : Option Float :=
  let x := nearest (n < 0) n.natAbs 1
  match shapeOf x with
  | .infinite _ => none
  | _ => some x

/-- The integer part of a finite number, toward zero. -/
def truncate (x : Float) : Option Int :=
  match shapeOf x with
  | .finite negative mantissa exponent =>
      let (n, d) := scaled mantissa 1 (-exponent)
      let magnitude : Int := ((n / d : Nat) : Int)
      some (if negative then -magnitude else magnitude)
  | _ => none

end TreeReplica.Number
