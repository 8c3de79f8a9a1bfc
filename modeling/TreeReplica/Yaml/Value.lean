/-
Values of documents. A collection that stands inside itself is written
there as `again`, so a value is a finite tree even where the document is
a cycle.

A value has two texts. `text?` is the one that a setting takes: a text
stands for itself. `shown?` is the one inside of a collection, in which
texts are quoted and dates say how they are made. Neither exists for an
integer that is too long to be written, or for a value that is nested
deeper than there is room for.
-/
import TreeReplica.Number.Shortest
import TreeReplica.Yaml.Tag

namespace TreeReplica.Yaml

-- ============================================================== values

/-- A value. `pairs` is a list of pairs, and `again` the place of a
collection inside itself, a mapping or a list. -/
inductive Value
  | null
  | bool (b : Bool)
  | int (n : Int)
  | float (x : Float)
  | text (s : String)
  | bytes (b : List UInt8)
  | date (d : Date)
  | moment (m : Moment)
  | list (items : List Value)
  | pairs (items : List (Value × Value))
  | mapping (items : List (Value × Value))
  | set (keys : List Value)
  | again (isMapping : Bool)
  deriving Inhabited

namespace Value

/-- What a kind of value is called. -/
def kindWord : Value → String
  | .null => "NoneType"
  | .bool _ => "bool"
  | .int _ => "int"
  | .float _ => "float"
  | .text _ => "str"
  | .bytes _ => "bytes"
  | .date _ => "datetime.date"
  | .moment _ => "datetime.datetime"
  | .list _ => "list"
  | .pairs _ => "list"
  | .mapping _ => "dict"
  | .set _ => "set"
  | .again isMapping => if isMapping then "dict" else "list"

/-- Does a value count as true? Nothing, zero and what is empty do
not. -/
def isTrue : Value → Bool
  | .null => false
  | .bool b => b
  | .int n => n ≠ 0
  | .float x => !(x == 0.0)
  | .text s => s ≠ ""
  | .bytes b => !b.isEmpty
  | .date _ => true
  | .moment _ => true
  | .list items => !items.isEmpty
  | .pairs items => !items.isEmpty
  | .mapping items => !items.isEmpty
  | .set keys => !keys.isEmpty
  | .again _ => true

-- =============================================================== texts

/-- How a byte is written between quotes. -/
def quotedByte (quote : Char) (b : UInt8) : List Char :=
  let c := Char.ofNat b.toNat
  if c = quote || c = '\\' then ['\\', c]
  else if c = '\n' then ['\\', 'n']
  else if c = '\r' then ['\\', 'r']
  else if c = '\t' then ['\\', 't']
  else if 0x20 ≤ b.toNat && b.toNat < 0x7f then [c]
  else '\\' :: 'x' :: Text.hexDigits 2 b.toNat

/-- Bytes between quotes. -/
def quotedBytes (bytes : List UInt8) : String :=
  let has (c : Char) := bytes.any fun b => b.toNat = c.toNat
  let quote := if has '\'' && !has '"' then '"' else '\''
  String.ofList
    ('b' :: quote :: (bytes.flatMap (quotedByte quote) ++ [quote]))

/-- Texts between brackets. -/
def enclosed (opening closing : String) (parts : List String) : String :=
  opening ++ ", ".intercalate parts ++ closing

mutual

/-- The text of a value inside of a collection. Each collection in another
takes one level of the room that is left. A pair is a collection of its
own, and a set is written as the list of its keys. -/
def shown? : Nat → Value → Except Number.NumberError String
  | 0, _ => .error .tooDeep
  | _ + 1, .null => .ok "None"
  | _ + 1, .bool b => .ok (if b then "True" else "False")
  | _ + 1, .int n => Number.integerText n
  | _ + 1, .float x => .ok (Number.text x)
  | _ + 1, .text s => .ok (Text.quoted s)
  | _ + 1, .bytes b => .ok (quotedBytes b)
  | _ + 1, .date d => .ok d.maker
  | _ + 1, .moment m => .ok m.maker
  | room + 1, .list items => (shownAll? room items).map (enclosed "[" "]")
  | room + 1, .pairs items =>
      (shownPairs? "(" ", " ")" (room - 1) items).map (enclosed "[" "]")
  | room + 1, .mapping items =>
      (shownPairs? "" ": " "" room items).map (enclosed "\x7b" "\x7d")
  | room + 1, .set keys =>
      if keys.isEmpty then .ok "set()"
      else (shownAll? (room - 1) keys).map (enclosed "\x7b" "\x7d")
  | _ + 1, .again isMapping =>
      .ok (if isMapping then "\x7b...\x7d" else "[...]")

/-- The texts of some values. -/
def shownAll? (room : Nat) :
    List Value → Except Number.NumberError (List String)
  | [] => .ok []
  | v :: rest => do
      let first ← shown? room v
      return first :: (← shownAll? room rest)

/-- The texts of some pairs, with what stands around and between their
parts. -/
def shownPairs? (opening between closing : String) (room : Nat) :
    List (Value × Value) → Except Number.NumberError (List String)
  | [] => .ok []
  | (k, v) :: rest => do
      let key ← shown? room k
      let value ← shown? room v
      return (opening ++ key ++ between ++ value ++ closing)
        :: (← shownPairs? opening between closing room rest)

end

/-- The text of a value, with room for so many levels. -/
def text? (room : Nat) : Value → Except Number.NumberError String
  | .text s => .ok s
  | .date d => .ok d.text
  | .moment m => .ok m.text
  | v => shown? room v

-- ============================================================ identity

/-- The number of a value that counts as a whole number. -/
def whole? : Value → Option Int
  | .bool b => some (if b then 1 else 0)
  | .int n => some n
  | _ => none

/-- Is a binary number equal to a whole one? -/
def isWhole (x : Float) (n : Int) : Bool :=
  Number.truncate x = some n
    && (Number.ofInteger n).any fun y => x == y

/-- Are two values the same key? Numbers are the same if they are equal,
whatever their kind. -/
def sameKey (a b : Value) : Bool :=
  match a.whole?, b.whole? with
  | some m, some n => m = n
  | some m, none => match b with
    | .float y => isWhole y m
    | _ => false
  | none, some n => match a with
    | .float x => isWhole x n
    | _ => false
  | none, none => match a, b with
    | .null, .null => true
    | .float x, .float y => x == y || (x.isNaN && y.isNaN)
    | .text s, .text t => s = t
    | .bytes x, .bytes y => x = y
    | .date x, .date y => x = y
    | .moment x, .moment y => x.same y
    | _, _ => false

/-- Put a value under a key. A key that is there already keeps its
place. -/
def putEntry {α : Type} (k : Value) (v : α) :
    List (Value × α) → List (Value × α)
  | [] => [(k, v)]
  | (k', v') :: rest =>
      if k'.sameKey k then (k', v) :: rest
      else (k', v') :: putEntry k v rest

end Value

end TreeReplica.Yaml
