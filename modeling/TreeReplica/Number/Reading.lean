/-
Reading numbers out of text. Blanks around a number are passed over, the
digits may be of any script, and single underscores may stand between
digits.

`readInteger` takes a sign and digits; `integerOf` does so in other
bases too, in which a mark of the base may come first. `readDecimal`
takes a sign, digits with a point among or around them and an exponent,
or one of the words for infinity and for no number; its value is the
nearest binary number.
-/
import TreeReplica.Number.Double
import TreeReplica.Text.Digits

namespace TreeReplica.Number

-- ============================================================ spelling

/-- A text as numbers are read: blanks at the ends dropped, digits of
every script made ASCII digits, and other foreign characters replaced by
one that occurs in no number. -/
def spelled (s : String) : List Char :=
  (Text.trimBlanks s.toList).map fun c =>
    if c.toNat < 128 then c
    else match Text.digitValue? c with
      | some v => Char.ofNat (48 + v)
      | none => '?'

/-- Is this an ASCII digit? -/
def isDigit (c : Char) : Bool := '0' ≤ c && c ≤ '9'

/-- The value of ASCII digits in a base. -/
def valueOf (base : Nat) (digits : List Char) : Nat :=
  digits.foldl
    (fun n c =>
      let d := if isDigit c then c.toNat - 48
        else if 'a' ≤ c && c ≤ 'z' then c.toNat - 87
        else c.toNat - 55
      n * base + d) 0

/-- Is this a digit of a base up to sixteen? -/
def isDigitOf (base : Nat) (c : Char) : Bool :=
  (isDigit c || ('a' ≤ c && c ≤ 'f') || ('A' ≤ c && c ≤ 'F'))
    && valueOf 16 [c] < base

/-- Drop the underscores of a text, each of which must stand between two
digits. `before` is the character in front. -/
def joinDigits? (base : Nat) : Char → List Char → Option (List Char)
  | before, [] => if before = '_' then none else some []
  | before, c :: rest =>
      if c = '_' then
        if isDigitOf base before then joinDigits? base '_' rest else none
      else if before = '_' && !isDigitOf base c then none
      else (joinDigits? base c rest).map (c :: ·)

/-- Take the sign off the front of a text. -/
def splitSign : List Char → Bool × List Char
  | '-' :: rest => (true, rest)
  | '+' :: rest => (false, rest)
  | cs => (false, cs)

-- ============================================================ integers

/-- The most digits that a decimal integer may have. -/
def digitLimit : Nat := 4300

/-- Why a text is not read as an integer. -/
inductive IntegerError
  | notInteger
  | tooManyDigits (count : Nat)
  deriving DecidableEq, Repr, Inhabited

/-- Take the mark of its base off the front of an integer: `0b`, `0o` or
`0x`. -/
def dropBaseMark (base : Nat) : List Char → List Char
  | '0' :: c :: rest =>
      let mark :=
        if base = 2 then 'b' else if base = 8 then 'o' else 'x'
      if base ≠ 10 && c.toLower = mark then rest else '0' :: c :: rest
  | cs => cs

/-- Read an integer out of digits that may be joined by underscores. Only
a decimal one has a limit on its length. -/
def integerOf (base : Nat) (cs : List Char) : Except IntegerError Int :=
  let (negative, body) := splitSign cs
  match joinDigits? base ' ' (dropBaseMark base body) with
  | none => .error .notInteger
  | some digits =>
      if digits.isEmpty || !digits.all (isDigitOf base) then
        .error .notInteger
      else if base = 10 && digitLimit < digits.length then
        .error (.tooManyDigits digits.length)
      else
        let n : Int := (valueOf base digits : Int)
        .ok (if negative then -n else n)

/-- Read a decimal integer. -/
def readInteger (s : String) : Except IntegerError Int :=
  integerOf 10 (spelled s)

-- ============================================================ decimals

/-- The nearest binary number to `digits * 10 ^ power`. Powers that are
far out of range need no arithmetic. -/
def ofDecimal (negative : Bool) (digits : List Char) (power : Int) :
    Float :=
  let digits := digits.dropWhile (· = '0')
  let place := power + (digits.length : Int)
  if digits.isEmpty || place < -400 then nearest negative 0 1
  else if 400 < place then infinity negative
  else
    let n := valueOf 10 digits
    if 0 ≤ power then nearest negative (n * Nat.pow 10 power.toNat) 1
    else nearest negative n (Nat.pow 10 (-power).toNat)

/-- The exponent at the end of a decimal: nothing, or `e`, a sign and
digits. -/
def readPower : List Char → Option Int
  | [] => some 0
  | c :: rest =>
      if c = 'e' || c = 'E' then
        let (negative, digits) := splitSign rest
        if digits.isEmpty || !digits.all isDigit then none
        else
          let n : Int := (valueOf 10 digits : Int)
          some (if negative then -n else n)
      else none

/-- Read a decimal without sign: digits around an optional point, with an
exponent. -/
def readUnsigned (negative : Bool) (cs : List Char) : Option Float :=
  let whole := cs.takeWhile isDigit
  let rest := cs.dropWhile isDigit
  let (part, tail) := match rest with
    | '.' :: rest => (rest.takeWhile isDigit, rest.dropWhile isDigit)
    | rest => ([], rest)
  if whole.isEmpty && part.isEmpty then none
  else (readPower tail).map fun power =>
    ofDecimal negative (whole ++ part) (power - (part.length : Int))

/-- The number that is no number. -/
def notANumber : Float := Float.ofBits 0x7ff8000000000000

/-- Read a decimal, or a word for infinity or no number. -/
def readDecimal (s : String) : Option Float :=
  match joinDigits? 10 ' ' (spelled s) with
  | none => none
  | some cs =>
      let (negative, body) := splitSign cs
      let word := String.ofList (body.map Char.toLower)
      if word = "inf" || word = "infinity" then
        some (infinity negative)
      else if word = "nan" then some notANumber
      else readUnsigned negative body

-- ============================================================== errors

/-- Why a value is not read, turned or written as a number or a text.
`shown` is the value in quotes. -/
inductive NumberError
  | notInteger (base : Nat) (shown : String)
  | tooManyDigits (count : Nat)
  | notDecimal (shown : String)
  | tooLarge
  | infinite
  | notANumber
  | tooLong
  | tooDeep
  deriving DecidableEq, Repr, Inhabited

/-- The wording of an error. No more than two hundred characters of a
value that is not an integer are shown. -/
def NumberError.message : NumberError → String
  | .notInteger base shown =>
      s!"invalid literal for int() with base {base}: "
        ++ String.ofList (shown.toList.take 200)
  | .tooManyDigits count =>
      s!"Exceeds the limit ({digitLimit} digits) for integer string "
        ++ s!"conversion: value has {count} digits; use "
        ++ "sys.set_int_max_str_digits() to increase the limit"
  | .notDecimal shown => "could not convert string to float: " ++ shown
  | .tooLarge => "int too large to convert to float"
  | .infinite => "cannot convert float infinity to integer"
  | .notANumber => "cannot convert float NaN to integer"
  | .tooLong =>
      s!"Exceeds the limit ({digitLimit} digits) for integer string "
        ++ "conversion; use sys.set_int_max_str_digits() to increase the limit"
  | .tooDeep =>
      "maximum recursion depth exceeded while getting the repr of an object"

/-- The error about a value that was read as an integer. -/
def IntegerError.about (base : Nat) (shown : String) :
    IntegerError → NumberError
  | .notInteger => .notInteger base shown
  | .tooManyDigits count => .tooManyDigits count

/-- The integer part of a binary number. -/
def wholePart (x : Float) : Except NumberError Int :=
  match truncate x, shapeOf x with
  | some n, _ => .ok n
  | none, .infinite _ => .error .infinite
  | none, _ => .error .notANumber

/-- The binary number nearest to an integer. -/
def toBinary (n : Int) : Except NumberError Float :=
  match ofInteger n with
  | some x => .ok x
  | none => .error .tooLarge

/-- The decimal text of an integer. -/
def integerText (n : Int) : Except NumberError String :=
  if n.natAbs < Nat.pow 10 digitLimit then .ok (toString n) else .error .tooLong

end TreeReplica.Number
