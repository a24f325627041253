import Cosmac.Text.Basic

/-!
# Printed numbers

Addresses, bytes and line numbers are printed with a least width.  A minus sign counts towards the
width, and a number that needs more digits than the width gets them.
-/

namespace Cosmac.Numeral

/-- The upper-case hexadecimal digits of a number, without leading zeros. -/
def hexDigits (n : Nat) : Text := (Nat.toDigits 16 n).map Char.toUpper

/-- The decimal digits of a number, without leading zeros. -/
def decimalDigits (n : Nat) : Text := Nat.toDigits 10 n

/-- The number in decimal, a minus sign before a negative one. -/
def decimal : Int → Text
  | .ofNat n => decimalDigits n
  | .negSucc n => '-' :: decimalDigits (n + 1)

/-- The digits of the number filled up with zeros after the sign, to at least `width`
characters with the sign. -/
def zeroPadded (digits : Nat → Text) (width : Nat) : Int → Text
  | .ofNat n => Text.padLeft '0' width (digits n)
  | .negSucc n => '-' :: Text.padLeft '0' (width - 1) (digits (n + 1))

/-- Hexadecimal, at least `width` characters. -/
def hex (width : Nat) (n : Int) : Text := zeroPadded hexDigits width n

/-- Decimal with leading zeros, at least `width` characters. -/
def decimalZeros (width : Nat) (n : Int) : Text := zeroPadded decimalDigits width n

/-- Decimal with leading spaces, at least `width` characters. -/
def decimalSpaces (width : Nat) (n : Int) : Text := Text.padLeft ' ' width (decimal n)

/-- A byte as two hexadecimal digits. -/
def hexByte (b : UInt8) : Text := hex 2 b.toNat

/-- Bytes as hexadecimal digits, two for each. -/
def hexBytes (bytes : List UInt8) : Text := bytes.flatMap hexByte

end Cosmac.Numeral
