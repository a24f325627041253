import Cosmac.Text.Blank
import Cosmac.Text.Digit

/-!
# Numbers on the command line and in symbol files

An integer is written with an optional sign and at least one digit; a single underscore may stand
between two digits.  Blanks may surround it, the information separators excepted.  Hexadecimal
digits may follow `0x`.  A decimal digit of any script counts by its value.
-/

namespace Cosmac.Numeral

/-- The character may surround a number. -/
def isNumberBlank (c : Char) : Bool := Text.isBlank c && !Text.inRanges [(0x1C, 0x1F)] c

/-- The value of a digit in the given base, letters standing for ten and more. -/
def digit? (base : Nat) (c : Char) : Option Nat :=
  let value? :=
    if 'a' ≤ c && c ≤ 'f' then some (c.toNat - 'a'.toNat + 10)
    else if 'A' ≤ c && c ≤ 'F' then some (c.toNat - 'A'.toNat + 10)
    else Text.digitValue? c
  value?.filter (· < base)

/-- Digits with at most one underscore between two of them, most significant first. -/
def digits? (base : Nat) : Text → Option (List Nat)
  | [] => none
  | [c] => (digit? base c).map ([·])
  | c :: '_' :: rest => do return (← digit? base c) :: (← digits? base rest)
  | c :: rest => do return (← digit? base c) :: (← digits? base rest)

/-- The number with these digits, most significant first. -/
def ofDigits (base : Nat) (digits : List Nat) : Nat :=
  digits.foldl (fun value digit => base * value + digit) 0

/-- The most digits of a decimal number. -/
def maxDecimalDigits : Nat := 4300

/-- Digits without a sign.  Hexadecimal ones may have `0x` before them, and an underscore after
that. -/
def unsigned? (base : Nat) (t : Text) : Option Nat :=
  let body :=
    match t with
    | lead :: x :: rest =>
      if base == 16 && Text.digitValue? lead == some 0 && (x == 'x' || x == 'X') then
        match rest with
        | '_' :: digits => digits
        | _ => rest
      else t
    | _ => t
  match digits? base body with
  | none => none
  | some digits =>
    if base == 10 && maxDecimalDigits < digits.length then none else some (ofDigits base digits)

/-- The integer written by the text, if it is one. -/
def integer? (base : Nat) (t : Text) : Option Int :=
  match Text.dropTail isNumberBlank (t.dropWhile isNumberBlank) with
  | '+' :: rest => (unsigned? base rest).map Int.ofNat
  | '-' :: rest => (unsigned? base rest).map fun n => -Int.ofNat n
  | rest => (unsigned? base rest).map Int.ofNat

/-- A number of the command line: hexadecimal after `0x`, `$` or `#`, else decimal. -/
def option? (t : Text) : Option Int :=
  match Text.strip t with
  | '0' :: 'x' :: rest => integer? 16 rest
  | '0' :: 'X' :: rest => integer? 16 rest
  | '$' :: rest => integer? 16 rest
  | '#' :: rest => integer? 16 rest
  | rest => integer? 10 rest

end Cosmac.Numeral
