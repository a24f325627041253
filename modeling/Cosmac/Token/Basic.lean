import Cosmac.Diagnostic.Kind
import Cosmac.Text.Quoted
import Cosmac.Text.Uppercase

/-!
# Tokens

The words, constants and strings of a statement.  A constant is kept as its digits, in upper case
and checked when the token is made, so that its value is at most 65535 (255 for a binary one).
-/

namespace Cosmac

/-- A word, constant or string of a statement. -/
inductive Token where
  /-- Nothing that a token could start with. -/
  | empty
  /-- A literal or word that is not well formed. -/
  | malformed (kind : Kind) (text : Text)
  /-- A string literal, never empty. -/
  | string (text : Text)
  /-- A binary constant. -/
  | binary (digits : Text)
  /-- A decimal constant. -/
  | decimal (digits : Text)
  /-- A hexadecimal constant. -/
  | hex (digits : Text)
  /-- A name: a label, symbol, mnemonic or directive. -/
  | word (text : Text)
  deriving DecidableEq, Repr

namespace Token

/-! ### Digits -/

/-- The value of a digit up to `F`. -/
def digitValue (c : Char) : Nat :=
  if c.isDigit then c.toNat - '0'.toNat else c.toNat - 'A'.toNat + 10

/-- The positional value of upper-case digits, most significant first. -/
def number (base : Nat) (digits : Text) : Nat :=
  digits.foldl (fun value c => base * value + digitValue c) 0

/-- A binary digit. -/
def isBinaryDigit (c : Char) : Bool := c == '0' || c == '1'

/-- An upper-case hexadecimal digit. -/
def isHexDigit (c : Char) : Bool := c.isDigit || decide ('A' ≤ c) && decide (c ≤ 'F')

/-- A character of a name: a digit or an upper-case letter. -/
def isNameChar (c : Char) : Bool := c.isDigit || c.isUpper

/-- The text can be read as a hexadecimal number without a mark: one to four digits. -/
def isHexWord (t : Text) : Bool :=
  decide (1 ≤ t.length) && decide (t.length ≤ 4) && (Text.upper t).all isHexDigit

/-! ### Constants from their digits -/

/-- A binary constant has one to eight digits. -/
def ofBinary (digits : Text) : Token :=
  if 1 ≤ digits.length ∧ digits.length ≤ 8 ∧ digits.all isBinaryDigit then .binary digits
  else .malformed .invalidBinary digits

/-- A decimal constant has one to five digits and is at most 65535. -/
def ofDecimal (digits : Text) : Token :=
  if 1 ≤ digits.length ∧ digits.length ≤ 5 ∧ digits.all Char.isDigit ∧ number 10 digits ≤ 0xFFFF then
    .decimal digits
  else .malformed .invalidDecimal digits

/-- A hexadecimal constant has one to four digits. -/
def ofHex (digits : Text) : Token :=
  if isHexWord digits then .hex digits else .malformed .invalidHex digits

/-- A name consists of digits and letters. -/
def ofWord (word : Text) : Token :=
  if word.all isNameChar then .word word else .malformed .malformed word

/-! ### Parts of a token -/

/-- The token's text: digits, name, or the characters of a string. -/
def text : Token → Text
  | empty => []
  | malformed _ t | string t | binary t | decimal t | hex t | word t => t

/-- What is wrong with the token, if anything. -/
def error? : Token → Option Kind
  | malformed kind _ => some kind
  | _ => none

/-- The token is a binary, decimal or hexadecimal constant. -/
def isConstant : Token → Bool
  | binary _ | decimal _ | hex _ => true
  | _ => false

/-- The byte that the first character of a string stands for. -/
def firstByte : Text → Nat
  | [] => 0
  | c :: _ => c.toNat % 256

/-- The value of a constant, and of a string the byte of its first character. -/
def value? : Token → Option Nat
  | binary digits => some (number 2 digits)
  | decimal digits => some (number 10 digits)
  | hex digits => some (number 16 digits)
  | string t => some (firstByte t)
  | empty | malformed _ _ | word _ => none

/-- Bytes that a value takes: two above 255, else one. -/
def width (value : Nat) : Nat := if value > 0xFF then 2 else 1

/-- Bytes that the token's value takes. -/
def size (token : Token) : Nat := width (token.value?.getD 0)

/-- The code of the token's type. -/
def code : Token → String
  | empty => "EMPTY"
  | malformed _ _ => "ERROR"
  | string _ => "STRING"
  | binary _ => "BCONST"
  | decimal _ => "DCONST"
  | hex _ => "HCONST"
  | word _ => "TEXT"

/-- The token for display: its type, and what is wrong with it or its text in quotes. -/
def display (token : Token) : Text :=
  let content :=
    match token with
    | empty => []
    | malformed kind _ => ", ".toList ++ kind.code.toList
    | _ => ", ".toList ++ Text.quoted token.text
  "Token(".toList ++ token.code.toList ++ content ++ ")".toList

end Token

end Cosmac
