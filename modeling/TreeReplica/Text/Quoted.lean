/-
Quoted text, as it stands in messages: between single quotes, or between
double quotes when the text holds a single quote and no double one. A
backslash, the chosen quote, and every character without a visible form
are written as escapes, so a quoted text is one line whatever it quotes.
-/
import TreeReplica.Text.Printable

namespace TreeReplica.Text

-- ============================================================== digits

/-- The lower-case hexadecimal digit of a number below 16. -/
def hexDigit (n : Nat) : Char :=
  if n < 10 then Char.ofNat (48 + n) else Char.ofNat (87 + n)

/-- The last `width` hexadecimal digits of `n`, leading zeros kept. -/
def hexDigits : Nat → Nat → List Char
  | 0, _ => []
  | width + 1, n => hexDigits width (n / 16) ++ [hexDigit (n % 16)]

-- ============================================================= escapes

/-- How one character is written between the quotes `quote`: tab and
line ends have short escapes, other invisible characters take the
narrowest of two, four or eight hexadecimal digits. -/
def quotedChar (quote c : Char) : List Char :=
  if c = quote || c = '\\' then ['\\', c]
  else if c = '\n' then ['\\', 'n']
  else if c = '\r' then ['\\', 'r']
  else if c = '\t' then ['\\', 't']
  else if isPrintable c then [c]
  else if c.toNat < 0x100 then '\\' :: 'x' :: hexDigits 2 c.toNat
  else if c.toNat < 0x10000 then '\\' :: 'u' :: hexDigits 4 c.toNat
  else '\\' :: 'U' :: hexDigits 8 c.toNat

/-- The quote put around a text: the single one, unless only that one
occurs inside. -/
def quoteFor (s : String) : Char :=
  if s.toList.contains '\'' && !s.toList.contains '"' then '"' else '\''

/-- The text between quotes. -/
def quoted (s : String) : String :=
  let quote := quoteFor s
  String.ofList (quote :: (s.toList.flatMap (quotedChar quote) ++ [quote]))

end TreeReplica.Text
