/-
Reading a command line. Every word is first looked at by itself
(`classify`): it names a flag, maybe with a value behind an equals sign
or, after a one-letter name, right behind it; or it is no flag. A name
may be shortened as long as only one name starts that way. After a lone
double hyphen no word is a flag.

Then the words are taken in order (`Command.read`). One-letter switches
may stand together behind one hyphen. Words that belong to no flag are
collected and refused at the end, so a request for help before that is
still met.
-/
import TreeReplica.CommandLine.Flag
import TreeReplica.Text.Digits
import TreeReplica.Text.Quoted

namespace TreeReplica.CommandLine

-- ============================================================= errors

/-- Why a command line is refused. -/
inductive Refusal
  | ambiguous (word : String) (names : List String)
  | missingValue (flag : Flag)
  | surplusValue (flag : Flag) (value : String)
  | unknown (words : List String)
  deriving DecidableEq, Repr, Inhabited

/-- The wording of a refusal. -/
def Refusal.message : Refusal → String
  | .ambiguous word names =>
      s!"ambiguous option: {word} could match " ++ ", ".intercalate names
  | .missingValue flag => s!"argument {flag.title}: expected one argument"
  | .surplusValue flag value =>
      s!"argument {flag.title}: ignored explicit argument "
        ++ Text.quoted value
  | .unknown words =>
      "unrecognized arguments: " ++ " ".intercalate words

-- ====================================================== single words

/-- A flag as a word names it, with the value that stands in the same
word. -/
structure Mention where
  flag : Flag
  name : String
  value : Option String
  deriving DecidableEq, Repr, Inhabited

/-- What a word is by itself: no flag, the double hyphen, a flag, or
something that looks like a flag and is none. -/
inductive Word
  | plain (text : String)
  | separator
  | mention (m : Mention)
  | unknown (text : String)
  deriving DecidableEq, Repr, Inhabited

/-- The word as it was given, unless it names a flag. -/
def Word.text? : Word → Option String
  | .plain text => some text
  | .separator => some "--"
  | .mention _ => none
  | .unknown text => some text

/-- A word in front of its first equals sign, and what is behind it. -/
def splitValue (word : String) : String × Option String :=
  let cs := word.toList
  let name := String.ofList (cs.takeWhile (· ≠ '='))
  match cs.dropWhile (· ≠ '=') with
  | _ :: value => (name, some (String.ofList value))
  | [] => (name, none)

/-- Is this a digit of any script? -/
def isAnyDigit (c : Char) : Bool := (Text.digitValue? c).isSome

/-- Does a word look like a negative number? A line feed at its end does
not matter. -/
def isNegativeNumber (word : String) : Bool :=
  let cs := word.toList
  let cs := if cs.getLast? = some '\n' then cs.dropLast else cs
  match cs with
  | '-' :: digits =>
      match digits.dropWhile isAnyDigit with
      | [] => !digits.isEmpty
      | '.' :: part => !part.isEmpty && part.all isAnyDigit
      | _ => false
  | _ => false

/-- Does a text start like this? -/
def startsWith (text start : String) : Bool :=
  start.toList.isPrefixOf text.toList

/-- The flags that a word can be short for. After two hyphens the name
ends at an equals sign; after one, a one-letter name may have its value
right behind it. -/
def candidates (i : Interface) (word : String) : List Mention :=
  if startsWith word "--" then
    let (start, value) := splitValue word
    i.named.filterMap fun (name, flag) =>
      if startsWith name start then some ⟨flag, name, value⟩ else none
  else
    let letter := String.ofList (word.toList.take 2)
    let rest := String.ofList (word.toList.drop 2)
    i.named.filterMap fun (name, flag) =>
      if name = letter then some ⟨flag, name, some rest⟩
      else if startsWith name word then some ⟨flag, name, none⟩
      else none

/-- The flag that a word names in full, maybe with a value behind an
equals sign. -/
def exactMention? (i : Interface) (word : String) : Option Mention :=
  match i.find? word with
  | some flag => some ⟨flag, word, none⟩
  | none =>
      match splitValue word with
      | (name, some value) =>
          (i.find? name).map fun flag => ⟨flag, name, some value⟩
      | _ => none

/-- What a word is by itself. -/
def classify (i : Interface) (word : String) : Except Refusal Word :=
  if !startsWith word "-" || word = "-" then .ok (.plain word)
  else match exactMention? i word with
    | some m => .ok (.mention m)
    | none =>
        match candidates i word with
        | [m] => .ok (.mention m)
        | [] =>
            if isNegativeNumber word || word.toList.contains ' ' then
              .ok (.plain word)
            else .ok (.unknown word)
        | several =>
            .error (.ambiguous word (several.map Mention.name))

/-- What all words are. -/
def classifyAll (i : Interface) : List String → Except Refusal (List Word)
  | [] => .ok []
  | "--" :: rest => .ok (.separator :: rest.map .plain)
  | word :: rest => do
      let first ← classify i word
      return first :: (← classifyAll i rest)

-- ============================================================= reading

/-- What a command line says: the switches that are on, the values, the
last of each flag first, and the words that belong to no flag. A value
that is a lone double hyphen is dropped, and the flag then has none. -/
structure Command where
  switches : List String := []
  values : List (String × Option String) := []
  extra : List String := []
  deriving DecidableEq, Repr, Inhabited

/-- How a command line was read. -/
inductive Outcome
  | command (c : Command)
  | help
  | refused (r : Refusal)
  deriving DecidableEq, Repr, Inhabited

namespace Command

/-- Give a flag a value. -/
def give (c : Command) (f : Flag) (value : String) : Command :=
  let kept := if value = "--" then none else some value
  { c with values := (f.key, kept) :: c.values }

/-- Turn a switch on. -/
def turnOn (c : Command) (f : Flag) : Command :=
  { c with switches := f.key :: c.switches }

/-- Turn switches on, unless one of them asks for help. -/
def turnAll (c : Command) (fs : List Flag) : Option Command :=
  if fs.any (·.kind = .help) then none
  else some (fs.foldl turnOn c)

/-- The switches that stand together in one word, with the flag at their
end that takes a value, if there is one. -/
structure Cluster where
  switches : List Flag
  last : Option (Flag × Option String)

/-- Take a flag apart that is named together with a value: a switch
passes what follows its letter on to the next switch. -/
def cluster (i : Interface) (f : Flag) (name : String) :
    List Char → Except Refusal Cluster
  | [] =>
      if f.takesValue then .ok ⟨[], some (f, some "")⟩
      else .error (.surplusValue f "")
  | c :: rest =>
      let value := String.ofList (c :: rest)
      if f.takesValue then .ok ⟨[], some (f, some value)⟩
      else if startsWith name "--" then .error (.surplusValue f value)
      else
        let letter := String.ofList ['-', c]
        match i.find? letter, rest with
        | none, _ => .error (.surplusValue f value)
        | some next, [] =>
            if next.takesValue then .ok ⟨[f], some (next, none)⟩
            else .ok ⟨[f, next], none⟩
        | some next, rest =>
            (cluster i next letter rest).map fun k =>
              { k with switches := f :: k.switches }

/-- The flags that a word names. -/
def Cluster.ofMention (i : Interface) (m : Mention) :
    Except Refusal Cluster :=
  match m.value with
  | some value => cluster i m.flag m.name value.toList
  | none =>
      if m.flag.takesValue then .ok ⟨[], some (m.flag, none)⟩
      else .ok ⟨[m.flag], none⟩

/-- Read words from left to right. -/
def readFrom (i : Interface) (c : Command) : List Word → Outcome
  | [] =>
      if c.extra.isEmpty then .command c else .refused (.unknown c.extra)
  | .mention m :: rest =>
      match Cluster.ofMention i m with
      | .error r => .refused r
      | .ok k =>
          match k.last, rest with
          | none, rest =>
              match c.turnAll k.switches with
              | none => .help
              | some c => readFrom i c rest
          | some (f, some value), rest =>
              match c.turnAll k.switches with
              | none => .help
              | some c => readFrom i (c.give f value) rest
          | some (f, none), .plain value :: rest =>
              match c.turnAll k.switches with
              | none => .help
              | some c => readFrom i (c.give f value) rest
          | some (f, none), _ => .refused (.missingValue f)
  | word :: rest =>
      readFrom i { c with extra := c.extra ++ word.text?.toList } rest

/-- Read a command line. -/
def read (i : Interface) (words : List String) : Outcome :=
  match classifyAll i words with
  | .error r => .refused r
  | .ok ws => readFrom i {} ws

/-- The value of a flag that counts: the last, unless it is empty or was
dropped. -/
def value? (c : Command) (key : String) : Option String :=
  match c.values.lookup key with
  | some (some value) => if value = "" then none else some value
  | _ => none

/-- Is a switch on? -/
def isOn (c : Command) (key : String) : Bool := c.switches.contains key

end Command

end TreeReplica.CommandLine
