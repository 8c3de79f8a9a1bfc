/-
Tags say what a node stands for. A plain scalar without a tag has one
that its text decides: `Tag.ofPlain` knows the forms of truth values,
numbers, dates, the empty value and the two keys with a meaning of their
own.
-/
import TreeReplica.Yaml.Moment

namespace TreeReplica.Yaml

-- ================================================================ tags

/-- A tag: one of the language, or any other text. -/
inductive Tag
  | null
  | bool
  | int
  | float
  | binary
  | timestamp
  | orderedMap
  | pairs
  | set
  | text
  | sequence
  | mapping
  | merge
  | value
  | other (text : String)
  deriving DecidableEq, Repr, Inhabited

/-- What the tags of the language start with. -/
def tagStart : String := "tag:yaml.org,2002:"

/-- The tags of the language by the rest of their text. -/
def knownTags : List (String × Tag) :=
  [("null", .null), ("bool", .bool), ("int", .int), ("float", .float),
    ("binary", .binary), ("timestamp", .timestamp), ("omap", .orderedMap),
    ("pairs", .pairs), ("set", .set), ("str", .text), ("seq", .sequence),
    ("map", .mapping), ("merge", .merge), ("value", .value)]

/-- The tag with a text. -/
def Tag.ofText (s : String) : Tag :=
  match knownTags.find? fun (name, _) => tagStart ++ name = s with
  | some (_, tag) => tag
  | none => .other s

/-- The text of a tag. -/
def Tag.spelling : Tag → String
  | .other s => s
  | tag =>
      match knownTags.find? fun (_, t) => t = tag with
      | some (name, _) => tagStart ++ name
      | none => tagStart

-- =============================================================== forms

/-- The words for truth values. -/
def truthWords : List String :=
  ["yes", "Yes", "YES", "no", "No", "NO", "true", "True", "TRUE", "false",
    "False", "FALSE", "on", "On", "ON", "off", "Off", "OFF"]

/-- The words for the empty value. -/
def nullWords : List String := ["", "~", "null", "Null", "NULL"]

/-- Is this a digit or an underscore? -/
def isJoined (c : Char) : Bool := Number.isDigit c || c = '_'

/-- Does a text start with a digit, and go on with digits and
underscores? -/
def isNumeral : List Char → Bool
  | c :: rest => Number.isDigit c && rest.all isJoined
  | [] => false

/-- Is this the exponent of a number: `e`, a sign and digits, or
nothing? -/
def isPower : List Char → Bool
  | [] => true
  | e :: sign :: digits =>
      (e = 'e' || e = 'E') && (sign = '+' || sign = '-')
        && !digits.isEmpty && digits.all Number.isDigit
  | _ => false

/-- Is this a part of a number in base sixty, after the first? -/
def isSixtieth : List Char → Bool
  | [a] => Number.isDigit a
  | [a, b] => '0' ≤ a && a ≤ '5' && Number.isDigit b
  | _ => false

/-- The parts of a text between colons. -/
def splitColons : List Char → List (List Char)
  | [] => [[]]
  | c :: rest =>
      if c = ':' then [] :: splitColons rest
      else match splitColons rest with
        | part :: parts => (c :: part) :: parts
        | [] => [[c]]

/-- A numeral and at least one further part between colons. -/
def isSexagesimal (cs : List Char) : Bool :=
  match splitColons cs with
  | first :: part :: parts =>
      isNumeral first && (part :: parts).all isSixtieth
  | _ => false

/-- Is this a number with a point? One in front of the digits takes no
sign. -/
def isFloatForm (cs : List Char) : Bool :=
  let (_, body) := Number.splitSign cs
  let whole := body.takeWhile (· ≠ '.')
  let text := String.ofList cs
  match body.dropWhile (· ≠ '.') with
  | _ :: part =>
      let digits := part.takeWhile isJoined
      let tail := part.dropWhile isJoined
      (isNumeral whole && isPower tail)
        || (cs.head? = some '.' && isNumeral digits && isPower tail)
        || (isSexagesimal whole && tail.isEmpty)
        || (whole.isEmpty
          && ["inf", "Inf", "INF"].contains (String.ofList part))
        || [".nan", ".NaN", ".NAN"].contains text
  | [] => false

/-- Are these digits of a base, and underscores, and at least one? -/
def isDigitsOf (base : Nat) (cs : List Char) : Bool :=
  !cs.isEmpty && cs.all fun c => c = '_' || Number.isDigitOf base c

/-- Is this a whole number: binary, octal, hexadecimal, decimal or in base
sixty? Only zero and an octal number start with a zero. -/
def isIntForm (cs : List Char) : Bool :=
  let (_, body) := Number.splitSign cs
  match body with
  | ['0'] => true
  | '0' :: 'b' :: digits => isDigitsOf 2 digits
  | '0' :: 'x' :: digits => isDigitsOf 16 digits
  | '0' :: digits => isDigitsOf 8 digits
  | body => isNumeral body || isSexagesimal body

/-- Is this a date with two digits for month and day, or a point in
time? -/
def isMomentForm (cs : List Char) : Bool :=
  match readMoment? cs with
  | some m => m.strict || m.time.isSome
  | none => false

/-- A text without one line feed at its end. -/
def withoutLastBreak (cs : List Char) : List Char :=
  if cs.getLast? = some '\n' then cs.dropLast else cs

/-- The tag of a plain scalar. -/
def Tag.ofPlain (s : String) : Tag :=
  let cs := withoutLastBreak s.toList
  let text := String.ofList cs
  if truthWords.contains text then .bool
  else if isFloatForm cs then .float
  else if isIntForm cs then .int
  else if text = "<<" then .merge
  else if nullWords.contains text then .null
  else if isMomentForm cs then .timestamp
  else if text = "=" then .value
  else .text

end TreeReplica.Yaml
