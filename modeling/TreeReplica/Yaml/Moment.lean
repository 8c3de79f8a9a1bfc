/-
Dates and points in time. A date has years of four digits, and a point in
time may have a fraction, of which microseconds are kept, and an offset
from universal time in minutes.

Each has two texts: one as it is read by people, and one that says how it
is made, for use inside of collections.
-/
import TreeReplica.Yaml.Fault

namespace TreeReplica.Yaml

-- ============================================================= reading

/-- The digits at the front of a text, between `least` and `most`, as a
number. -/
def takeDigits? (least most : Nat) (cs : List Char) :
    Option (Nat × List Char) :=
  let digits := (cs.take most).takeWhile Number.isDigit
  if digits.length < least then none
  else some (Number.valueOf 10 digits, cs.drop digits.length)

/-- Take a character off the front. -/
def takeChar? (c : Char) : List Char → Option (List Char)
  | x :: rest => if x = c then some rest else none
  | [] => none

/-- The time of a day as it is written. `offset` is a sign, hours and
minutes, or no sign for universal time. -/
structure WrittenTime where
  hour : Nat
  minute : Nat
  second : Nat
  fraction : List Char
  offset : Option (Option Bool × Nat × Nat)
  deriving DecidableEq, Repr, Inhabited

/-- A date as it is written, and the time. `strict` says that month and
day have two digits. -/
structure WrittenMoment where
  year : Nat
  month : Nat
  day : Nat
  strict : Bool
  time : Option WrittenTime
  deriving DecidableEq, Repr, Inhabited

/-- Is this a space or a tab? -/
def isBlankChar (c : Char) : Bool := c = ' ' || c = '\t'

/-- Read an offset up to the end of the text. -/
def readOffset? (cs : List Char) :
    Option (Option (Option Bool × Nat × Nat)) :=
  if cs.isEmpty then some none
  else match cs.dropWhile isBlankChar with
    | ['Z'] => some (some (none, 0, 0))
    | c :: rest =>
        if c = '+' || c = '-' then do
          let (hours, rest) ← takeDigits? 1 2 rest
          if rest.isEmpty then some (some (some (c = '-'), hours, 0))
          else
            let rest ← takeChar? ':' rest
            let (minutes, rest) ← takeDigits? 2 2 rest
            if rest.isEmpty then
              some (some (some (c = '-'), hours, minutes))
            else none
        else none
    | [] => none

/-- Read a time up to the end of the text, after a `t` or blanks. -/
def readTime? (cs : List Char) : Option WrittenTime := do
  let cs ← match cs with
    | 'T' :: rest => some rest
    | 't' :: rest => some rest
    | c :: rest =>
        if isBlankChar c then some (rest.dropWhile isBlankChar) else none
    | [] => none
  let (hour, cs) ← takeDigits? 1 2 cs
  let cs ← takeChar? ':' cs
  let (minute, cs) ← takeDigits? 2 2 cs
  let cs ← takeChar? ':' cs
  let (second, cs) ← takeDigits? 2 2 cs
  let (fraction, cs) := match cs with
    | '.' :: rest =>
        (rest.takeWhile Number.isDigit, rest.dropWhile Number.isDigit)
    | cs => ([], cs)
  let offset ← readOffset? cs
  return { hour, minute, second, fraction, offset }

/-- Read a date, with or without a time. -/
def readMoment? (cs : List Char) : Option WrittenMoment := do
  let (year, cs) ← takeDigits? 4 4 cs
  let cs ← takeChar? '-' cs
  let (month, rest) ← takeDigits? 1 2 cs
  let monthWidth := cs.length - rest.length
  let cs ← takeChar? '-' rest
  let (day, rest) ← takeDigits? 1 2 cs
  let dayWidth := cs.length - rest.length
  let strict := monthWidth = 2 && dayWidth = 2
  if rest.isEmpty then return { year, month, day, strict, time := none }
  else return { year, month, day, strict, time := some (← readTime? rest) }

-- ============================================================== values

/-- A date. -/
structure Date where
  year : Nat
  month : Nat
  day : Nat
  deriving DecidableEq, Repr, Inhabited

/-- A point in time. Without an offset it is local, and no point of
universal time. -/
structure Moment where
  date : Date
  hour : Nat
  minute : Nat
  second : Nat
  micros : Nat
  offset : Option Int
  deriving DecidableEq, Repr, Inhabited

/-- Does a year have a leap day? -/
def isLeap (year : Nat) : Bool :=
  year % 4 = 0 && (year % 100 ≠ 0 || year % 400 = 0)

/-- The days of a month. -/
def daysIn (year month : Nat) : Nat :=
  if month = 2 then if isLeap year then 29 else 28
  else if month = 4 || month = 6 || month = 9 || month = 11 then 30
  else 31

/-- Make a date. -/
def Date.make (year month day : Nat) : Except TimeFault Date :=
  if year = 0 then .error (.year year)
  else if month = 0 || 12 < month then .error .month
  else if day = 0 || daysIn year month < day then .error .day
  else .ok ⟨year, month, day⟩

/-- The minutes of an offset, which must be less than a day. -/
def makeOffset : Option (Option Bool × Nat × Nat) →
    Except TimeFault (Option Int)
  | none => .ok none
  | some (sign, hours, minutes) =>
      let size : Int := ((hours * 60 + minutes : Nat) : Int)
      let minutes := if sign = some true then -size else size
      if size < 24 * 60 then .ok (some minutes)
      else
        .error (.offset (minutes / (24 * 60))
          ((minutes % (24 * 60)).toNat * 60))

/-- The microseconds of a fraction. -/
def microsOf (fraction : List Char) : Nat :=
  let digits := fraction.take 6
  Number.valueOf 10 (digits ++ List.replicate (6 - digits.length) '0')

/-- Make a point in time. -/
def Moment.make (w : WrittenMoment) (t : WrittenTime) :
    Except TimeFault Moment := do
  let offset ← makeOffset t.offset
  let date ← Date.make w.year w.month w.day
  if 23 < t.hour then throw .hour
  if 59 < t.minute then throw .minute
  if 59 < t.second then throw .second
  return { date, hour := t.hour, minute := t.minute, second := t.second
           micros := microsOf t.fraction, offset }

-- =============================================================== texts

/-- A number with leading zeros. -/
def padded (width n : Nat) : String :=
  let digits := toString n
  String.ofList (List.replicate (width - digits.length) '0') ++ digits

/-- The text of a date. -/
def Date.text (d : Date) : String :=
  s!"{padded 4 d.year}-{padded 2 d.month}-{padded 2 d.day}"

/-- The text of an offset. -/
def offsetText (minutes : Int) : String :=
  let size := minutes.natAbs
  (if minutes < 0 then "-" else "+")
    ++ s!"{padded 2 (size / 60)}:{padded 2 (size % 60)}"

/-- The text of a point in time. -/
def Moment.text (m : Moment) : String :=
  m.date.text
    ++ s!" {padded 2 m.hour}:{padded 2 m.minute}:{padded 2 m.second}"
    ++ (if m.micros = 0 then "" else s!".{padded 6 m.micros}")
    ++ (m.offset.map offsetText).getD ""

/-- How a date is made. -/
def Date.maker (d : Date) : String :=
  s!"datetime.date({d.year}, {d.month}, {d.day})"

/-- How an offset is made. -/
def offsetMaker (minutes : Int) : String :=
  if minutes = 0 then "datetime.timezone.utc"
  else
    let days := minutes / (24 * 60)
    let seconds := (minutes % (24 * 60)).toNat * 60
    s!"datetime.timezone({spanText days seconds})"

/-- How a point in time is made. Zeros at the end are left out. -/
def Moment.maker (m : Moment) : String :=
  let fine :=
    if m.micros ≠ 0 then [m.second, m.micros]
    else if m.second ≠ 0 then [m.second]
    else []
  let parts :=
    [m.date.year, m.date.month, m.date.day, m.hour, m.minute] ++ fine
  "datetime.datetime(" ++ ", ".intercalate (parts.map toString)
    ++ (m.offset.map fun o => s!", tzinfo={offsetMaker o}").getD "" ++ ")"

-- ============================================================ identity

/-- The days before a date, counted from the first of January of year
one. -/
def Date.dayNumber (d : Date) : Nat :=
  let years := d.year - 1
  let before := (List.range (d.month - 1)).foldl
    (fun days m => days + daysIn d.year (m + 1)) 0
  years * 365 + years / 4 - years / 100 + years / 400 + before + d.day

/-- The microseconds of universal time, for a point in time with an
offset. -/
def Moment.universal? (m : Moment) : Option Int :=
  m.offset.map fun offset =>
    let minutes : Int :=
      (((m.date.dayNumber * 24 + m.hour) * 60 + m.minute : Nat) : Int)
        - offset
    (minutes * 60 + m.second) * 1000000 + m.micros

/-- Are two points in time the same? A local one is never the same as one
of universal time. -/
def Moment.same (a b : Moment) : Bool :=
  match a.universal?, b.universal? with
  | some x, some y => x = y
  | none, none => a = b
  | _, _ => false

end TreeReplica.Yaml
