import GlobalQcqp.Text.Printable
/-!
# Quoted text

Text between quotes.  A character that cannot be shown stands as its code point in hexadecimal
digits.
-/

namespace GlobalQcqp.Text

def hexDigits : Nat → Nat → List Char
  | 0, _ => []
  | count + 1, n => hexDigits count (n / 16) ++ [Nat.digitChar (n % 16)]

/-- The escape for a character that cannot be shown, with as many digits as its code point needs. -/
def codeEscape (c : Char) : List Char :=
  let n := c.toNat
  if n < 0x100 then '\\' :: 'x' :: hexDigits 2 n
  else if n < 0x10000 then '\\' :: 'u' :: hexDigits 4 n
  else '\\' :: 'U' :: hexDigits 8 n

/-- A character between quotes. -/
def quotedChar (quote c : Char) : List Char :=
  if c == quote || c == '\\' then ['\\', c]
  else if c == '\n' then ['\\', 'n']
  else if c == '\r' then ['\\', 'r']
  else if c == '\t' then ['\\', 't']
  else if isPrintable c then [c]
  else codeEscape c

/-- Text in single quotes, or in double quotes where that avoids an escape. -/
def quoted (s : String) : String :=
  let quote := if s.contains '\'' && !s.contains '\x22' then '\x22' else '\''
  String.ofList (quote :: s.toList.flatMap (quotedChar quote) ++ [quote])

end GlobalQcqp.Text
