import Cosmac.Chunks
import Cosmac.Numeral.Padded
import Cosmac.Text.Blank
import Cosmac.Word

/-!
# Listing

A listing shows each source line with its address and its code, seven bytes to a row, and the
diagnostics of the line below it.

    0000 F805;           0001 START: LDI #05
    >>> Undefined symbol
-/

namespace Cosmac

/-- A source line with what was made of it. -/
structure ListingLine where
  /-- The location counter at its first statement. -/
  address : Int
  /-- The code of its statements. -/
  code : List UInt8
  /-- Its number. -/
  line : Int
  /-- Its text. -/
  source : Text
  /-- The messages of its errors. -/
  diagnostics : List Text := []
  deriving DecidableEq, Repr

namespace ListingLine

/-- Code bytes to a row. -/
def bytesPerRow : Nat := 7

/-- The bytes of each row; there is always one. -/
def codeRows (l : ListingLine) : List (List UInt8) :=
  match rowsOf bytesPerRow l.code with
  | [] => [[]]
  | rows => rows

/-- Row number `k`: address, code and line number, in the first row also the source text. -/
def codeRow (l : ListingLine) (k : Nat) (bytes : List UInt8) : Text :=
  let address := Numeral.hex 4 (word (l.address + (bytesPerRow * k : Nat)))
  let code := Numeral.hexBytes bytes ++ ";".toList ++
    List.replicate (2 * (bytesPerRow - bytes.length)) ' '
  let source := if k = 0 then ' ' :: l.source else []
  Text.stripRight (address ++ [' '] ++ code ++ [' '] ++ Numeral.decimalZeros 4 l.line ++ source)

/-- The rows of a line: code, then diagnostics. -/
def rows (l : ListingLine) : List Text :=
  l.codeRows.zipIdx.map (fun (bytes, k) => l.codeRow k bytes) ++
    l.diagnostics.map (">>> ".toList ++ ·)

end ListingLine

/-- The listing of a program. -/
def listingText (lines : List ListingLine) : Text :=
  Text.joinLines (lines.flatMap ListingLine.rows)

end Cosmac
