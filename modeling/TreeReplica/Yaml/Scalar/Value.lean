/-
The values of scalars by their tags. The texts are those that a plain
scalar with the tag may have, and more where a tag is written out.
-/
import TreeReplica.Yaml.Value

namespace TreeReplica.Yaml

open Number (NumberError)

-- ============================================================= numbers

/-- A text without underscores. -/
def withoutUnderscores (cs : List Char) : List Char :=
  cs.filter (· ≠ '_')

/-- A text as quoted in an error. -/
def quotedChars (cs : List Char) : String :=
  Text.quoted (String.ofList cs)

/-- An integer in a base. -/
def integerIn (base : Nat) (cs : List Char) : Except TextFault Int :=
  match Number.integerOf base (Number.spelled (String.ofList cs)) with
  | .ok n => .ok n
  | .error e => .error (.number (e.about base (quotedChars cs)))

/-- A decimal number. -/
def decimalIn (cs : List Char) : Except TextFault Float :=
  match Number.readDecimal (String.ofList cs) with
  | some x => .ok x
  | none => .error (.number (.notDecimal (quotedChars cs)))

/-- The value of digits in base sixty, the lowest first. -/
def ofSixtieths : List Int → Int
  | [] => 0
  | d :: rest => d + 60 * ofSixtieths rest

/-- The value of a whole number after its sign. -/
def unsignedInt (cs : List Char) : Except TextFault Int :=
  match cs with
  | [] => .error .empty
  | ['0'] => .ok 0
  | '0' :: 'b' :: digits => integerIn 2 digits
  | '0' :: 'x' :: digits => integerIn 16 digits
  | '0' :: _ => integerIn 8 cs
  | _ =>
      if cs.contains ':' then
        ((splitColons cs).mapM (integerIn 10)).map fun parts =>
          ofSixtieths parts.reverse
      else integerIn 10 cs

/-- The value of a whole number. -/
def intValue (s : String) : Except TextFault Int :=
  let (negative, body) := Number.splitSign (withoutUnderscores s.toList)
  (unsignedInt body).map fun n => if negative then -n else n

/-- The sum of decimal numbers in base sixty, the lowest first. `unit` is
the power of sixty of the first. -/
def sumSixtieths (sum : Float) (unit : Int) :
    List Float → Except TextFault Float
  | [] => .ok sum
  | d :: rest =>
      match Number.toBinary unit with
      | .ok u => sumSixtieths (sum + d * u) (unit * 60) rest
      | .error e => .error (.number e)

/-- The value of a decimal number after its sign. -/
def unsignedFloat (cs : List Char) : Except TextFault Float := do
  let word := String.ofList cs
  if word = ".inf" then return Number.infinity false
  else if word = ".nan" then return Number.notANumber
  else if cs.contains ':' then
    let parts ← (splitColons cs).mapM decimalIn
    sumSixtieths 0.0 1 parts.reverse
  else decimalIn cs

/-- The value of a decimal number. -/
def floatValue (s : String) : Except TextFault Float :=
  let cs := (withoutUnderscores s.toList).map Char.toLower
  if cs.isEmpty then .error .empty
  else
    let (negative, body) := Number.splitSign cs
    (unsignedFloat body).map fun x => if negative then -1.0 * x else x

-- ======================================================= other values

/-- The value of a truth word, in any case. -/
def boolValue (s : String) : Except TextFault Bool :=
  let word := String.ofList (s.toList.map Char.toLower)
  if ["yes", "true", "on"].contains word then .ok true
  else if ["no", "false", "off"].contains word then .ok false
  else .error (.boolean word)

/-- The value of a date or a point in time. -/
def timeValue (s : String) : Except TextFault Value :=
  match readMoment? (withoutLastBreak s.toList) with
  | none => .error .timestamp
  | some w =>
      match w.time with
      | none =>
          match Date.make w.year w.month w.day with
          | .ok d => .ok (.date d)
          | .error e => .error (.time e)
      | some t =>
          match Moment.make w t with
          | .ok m => .ok (.moment m)
          | .error e => .error (.time e)

/-- The bytes that a text in base 64 stands for. -/
def bytesValue (s : String) : Except ValueFault (List UInt8) :=
  let cs := s.toList
  let isForeign (c : Char) : Bool := 0x80 ≤ c.toNat
  match cs.dropWhile (!isForeign ·) with
  | c :: rest =>
      let first := cs.length - (rest.length + 1)
      .error (.foreignBase64 first
        (first + (rest.takeWhile isForeign).length) c)
  | [] =>
      match Text.ofBase64 cs with
      | .ok b => .ok b
      | .error e => .error (.base64 e)

/-- The value of a scalar with a tag. Tags of collections have no value
here. -/
def scalarValue (tag : Tag) (s : String) : Except Fault Value :=
  match tag with
  | .null => .ok .null
  | .bool => liftText (boolValue s) .bool
  | .int => liftText (intValue s) .int
  | .float => liftText (floatValue s) .float
  | .timestamp => liftText (timeValue s) id
  | .text => .ok (.text s)
  | .binary =>
      match bytesValue s with
      | .ok b => .ok (.bytes b)
      | .error e => .error (.value e)
  | tag => .error (.value (.unknownTag tag.spelling))
where
  /-- A value, or the fault in its text. -/
  liftText {α : Type} (r : Except TextFault α) (make : α → Value) :
      Except Fault Value :=
    match r with
    | .ok a => .ok (make a)
    | .error e => .error (.text e)

end TreeReplica.Yaml
