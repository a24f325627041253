import Cosmac.Text.Printable
import Cosmac.Numeral.Padded

/-!
# Quoted text

How a text is shown inside a message: between single quotes, or between double quotes if it holds
single quotes and no double ones.  The quote in use, the backslash and every character that is not
printable are written as escapes.
-/

namespace Cosmac.Text

/-- The lower-case hexadecimal digits of a code point, at least `width` of them. -/
def codeDigits (width : Nat) (c : Char) : Text :=
  padLeft '0' width (Nat.toDigits 16 c.toNat)

/-- A character between the given quotes. -/
def escapeChar (quote c : Char) : Text :=
  if c == quote || c == '\\' then ['\\', c]
  else if c == '\t' then ['\\', 't']
  else if c == '\n' then ['\\', 'n']
  else if c == '\r' then ['\\', 'r']
  else if isPrintable c then [c]
  else if c.toNat < 0x100 then '\\' :: 'x' :: codeDigits 2 c
  else if c.toNat < 0x10000 then '\\' :: 'u' :: codeDigits 4 c
  else '\\' :: 'U' :: codeDigits 8 c

/-- The quote that surrounds a text. -/
def quoteFor (t : Text) : Char :=
  if t.contains '\'' && !t.contains '"' then '"' else '\''

/-- The text between quotes. -/
def quoted (t : Text) : Text :=
  quoteFor t :: t.flatMap (escapeChar (quoteFor t)) ++ [quoteFor t]

end Cosmac.Text
