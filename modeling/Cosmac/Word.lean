/-!
# Words and bytes

Addresses and symbol values are 16-bit words, code is bytes.  Calculations are made in the
integers and cut down to a word or a byte where one is stored, so a negative intermediate value
counts from the top.
-/

namespace Cosmac

/-- The integer modulo 65536. -/
def word (n : Int) : Int := n % 0x10000

/-- The low byte of an integer, as a number. -/
def lowByte (n : Int) : Int := n % 0x100

/-- The byte above the low byte, as a number. -/
def highByte (n : Int) : Int := n / 0x100 % 0x100

/-- The low byte of an integer. -/
def byte (n : Int) : UInt8 := UInt8.ofNat (lowByte n).toNat

/-- The low word of an integer as two bytes, the high one first. -/
def wordBytes (n : Int) : List UInt8 := [byte (highByte n), byte (lowByte n)]

end Cosmac
