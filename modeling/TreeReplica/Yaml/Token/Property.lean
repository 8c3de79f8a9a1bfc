/-
The tokens that have a word of their own: directives, anchors, aliases
and tags. A tag is a handle between exclamation marks with the rest after
it, or it is written out between angle brackets.
-/
import TreeReplica.Text.Utf8
import TreeReplica.Yaml.Scalar.Quoted
import TreeReplica.Yaml.Token

namespace TreeReplica.Yaml

open Reading

-- ======================================================= names, numbers

/-- A name. It may not be empty. -/
def readName (e : LexicalFault) : Reading String := do
  let name ← modifyGet (·.span isNameChar)
  if name.isEmpty then refuse e else return String.ofList name

/-- A number in digits. It may not be empty. -/
def readDigits (e : LexicalFault) : Reading Nat := do
  let digits ← modifyGet (·.span Number.isDigit)
  if digits.isEmpty then refuse e else return Number.valueOf 10 digits

-- ================================================================ tags

/-- May this character stand in a tag? -/
def isTagChar (c : Char) : Bool :=
  isNameChar c || ";/?:@&=+$,_.!~*'()[]".toList.contains c

/-- The bytes of escapes, each a percent sign and two digits. -/
def readEscapes (e : LexicalFault) : Nat → Reading (List UInt8)
  | 0 => return []
  | bound + 1 => do
      if (← next?) ≠ some '%' then return []
      modify (·.step)
      let code ← hexNumber e 2
      return UInt8.ofNat code :: (← readEscapes e bound)

/-- The pieces of a tag after its handle. -/
def readSuffix (e : LexicalFault) : Nat → Reading (List Char)
  | 0 => return []
  | bound + 1 => do
      let run ← modifyGet (·.span isTagChar)
      if (← next?) = some '%' then
        let bytes ← readEscapes e ((← get).rest.length + 1)
        match Text.decode bytes with
        | .error _ => refuse e
        | .ok escaped =>
            return run ++ escaped ++ (← readSuffix e bound)
      else return run

/-- The rest of a tag after its handle. It may not be empty. `inside` and
`missing` are the faults in and of it. -/
def readTagText (inside missing : LexicalFault) : Reading String := do
  let start ← get
  let text ← readSuffix inside (start.rest.length + 1)
  if (← get).index = start.index then refuse missing
  else return String.ofList text

/-- A handle: an exclamation mark, alone or around a name. -/
def readHandle (e : LexicalFault) : Reading String := do
  if (← next?) ≠ some '!' then refuse e
  modify (·.step)
  if (← next?) = some ' ' then return "!"
  let name ← modifyGet (·.span isNameChar)
  if (← next?) = some '!' then
    modify (·.step)
    return String.ofList ('!' :: (name ++ ['!']))
  else refuse e

/-- Does a second exclamation mark come before the end of the word? -/
def hasHandle (c : Cursor) : Bool :=
  (c.rest.drop 1).find? (fun x => x = '!' || endsWord (some x)) = some '!'

/-- The tag that starts here. -/
def readTag : Reading Token := do
  let start ← get
  let tag ← match start.second? with
    | some '<' =>
        modify (·.skip 2)
        let text ← readTagText .tag .tagEnd
        if (← next?) ≠ some '>' then refuse .tagEnd
        modify (·.step)
        pure (Token.tag none text)
    | second =>
        if endsToken second then
          modify (·.step)
          pure (Token.tag none "!")
        else if hasHandle start then
          let handle ← readHandle .tag
          pure (Token.tag (some handle) (← readTagText .tag .tagEnd))
        else
          modify (·.step)
          pure (Token.tag (some "!") (← readTagText .tag .tagEnd))
  if endsWord (← next?) then return tag else refuse .tag

-- ============================================================= anchors

/-- Does a name end here? -/
def endsName : Option Char → Bool
  | some c => isGap c || "?:,]\x7d%@\x60".toList.contains c
  | none => true

/-- The anchor or alias that starts here. -/
def readAnchor (e : LexicalFault) (token : String → Token) :
    Reading Token := do
  modify (·.step)
  let name ← readName e
  if endsName (← next?) then return token name else refuse e

-- ========================================================== directives

/-- What comes after the name of a directive. -/
def readDirectiveBody (name : String) : Reading Directive := do
  if name = "YAML" then
    modify (·.dropSpaces)
    let major ← readDigits .directive
    if (← next?) ≠ some '.' then refuse .directive
    modify (·.step)
    let _ ← readDigits .directive
    if endsWord (← next?) then return .version major
    else refuse .directive
  else if name = "TAG" then
    modify (·.dropSpaces)
    let handle ← readHandle .directive
    if (← next?) ≠ some ' ' then refuse .directive
    modify (·.dropSpaces)
    let tagStart ← readTagText .directive .directiveTag
    if endsWord (← next?) then return .handle handle tagStart
    else refuse .directive
  else
    modify (·.dropWhile (!isBreak ·))
    return .reserved

/-- The directive that starts here. -/
def readDirective : Reading Token := do
  modify (·.step)
  let name ← readName .directive
  if !endsWord (← next?) then refuse .directive
  let d ← readDirectiveBody name
  restOfLine .directive
  return .directive d

end TreeReplica.Yaml
