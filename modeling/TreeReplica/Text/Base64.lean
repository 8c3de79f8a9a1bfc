/-
Base 64: four characters stand for three bytes. Reading is lenient, so
characters that are neither digits nor padding are passed over, and all
that follows complete padding.
-/
namespace TreeReplica.Text

/-- Why a text is not read as base 64: one digit too many, or padding
that does not fill the last group of four. -/
inductive Base64Error
  | extraDigit (digits : Nat)
  | padding
  deriving DecidableEq, Repr, Inhabited

/-- The wording of an error. -/
def Base64Error.message : Base64Error → String
  | .extraDigit digits =>
      "Invalid base64-encoded string: number of data characters "
        ++ s!"({digits}) cannot be 1 more than a multiple of 4"
  | .padding => "Incorrect padding"

/-- The value of a digit. -/
def base64Digit? (c : Char) : Option Nat :=
  if 'A' ≤ c && c ≤ 'Z' then some (c.toNat - 65)
  else if 'a' ≤ c && c ≤ 'z' then some (c.toNat - 71)
  else if '0' ≤ c && c ≤ '9' then some (c.toNat + 4)
  else if c = '+' then some 62
  else if c = '/' then some 63
  else none

/-- The digits up to complete padding, and whether there was some.
`place` counts the digits of the group so far and `pads` the padding
characters since the last digit. -/
def base64Digits (place pads : Nat) : List Char → List Nat × Bool
  | [] => ([], false)
  | '=' :: rest =>
      if place < 2 then base64Digits place pads rest
      else if 4 ≤ place + pads + 1 then ([], true)
      else base64Digits place (pads + 1) rest
  | c :: rest =>
      match base64Digit? c with
      | none => base64Digits place pads rest
      | some d =>
          let (digits, padded) := base64Digits ((place + 1) % 4) 0 rest
          (d :: digits, padded)

/-- The bytes of groups of four digits, the last of which may be
short. -/
def base64Bytes : List Nat → List UInt8
  | a :: b :: c :: d :: rest =>
      UInt8.ofNat (a * 4 + b / 16) :: UInt8.ofNat (b % 16 * 16 + c / 4)
        :: UInt8.ofNat (c % 4 * 64 + d) :: base64Bytes rest
  | [a, b, c] =>
      [UInt8.ofNat (a * 4 + b / 16), UInt8.ofNat (b % 16 * 16 + c / 4)]
  | [a, b] => [UInt8.ofNat (a * 4 + b / 16)]
  | _ => []

/-- Read base 64. -/
def ofBase64 (cs : List Char) : Except Base64Error (List UInt8) :=
  let (digits, padded) := base64Digits 0 0 cs
  if padded || digits.length % 4 = 0 then .ok (base64Bytes digits)
  else if digits.length % 4 = 1 then .error (.extraDigit digits.length)
  else .error .padding

end TreeReplica.Text
