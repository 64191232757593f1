import Fakery.Text.Alphabet

/-!
# Quotations in messages

A text quoted inside a message stands in single quotes, or in double quotes when
it holds single quotes only.  Quotes of the chosen kind, backslashes and
characters that cannot be shown are escaped.
-/

namespace Fakery.Text

/-- The last `width` hexadecimal digits of a number. -/
def hexDigits : (width n : Nat) → List Char
  | 0, _ => []
  | width + 1, n => hexDigits width (n / 16) ++ [Nat.digitChar (n % 16)]

def escapeChar (quote c : Char) : List Char :=
  if c == quote || c == '\\' then ['\\', c]
  else if c == '\n' then ['\\', 'n']
  else if c == '\r' then ['\\', 'r']
  else if c == '\t' then ['\\', 't']
  else if isPrintable c then [c]
  else if c.toNat < 0x100 then '\\' :: 'x' :: hexDigits 2 c.toNat
  else if c.toNat < 0x10000 then '\\' :: 'u' :: hexDigits 4 c.toNat
  else '\\' :: 'U' :: hexDigits 8 c.toNat

/-- A text as it is quoted inside a message. -/
def quoted (s : String) : String :=
  let cs := s.toList
  let quote := if cs.contains '\x27' && !cs.contains '"' then '"' else '\x27'
  String.ofList (quote :: cs.flatMap (escapeChar quote) ++ [quote])

end Fakery.Text
