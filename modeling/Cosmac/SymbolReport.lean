import Cosmac.SymbolTable

/-!
# Printed symbols

The symbol table as it is printed at the end of a run and written to a symbol file.

    Symbol   Hex    Dec
    START    0000     0
    COUNT    not yet known
-/

namespace Cosmac

/-- Characters of a name that are printed. -/
def SymbolRecord.nameWidth : Nat := 8

/-- The printed row of a symbol. -/
def SymbolRecord.row (r : SymbolRecord) : Text :=
  let name := (Text.padRight nameWidth r.name).take nameWidth
  if r.resolved then
    name ++ [' '] ++ Numeral.hex 4 r.value ++ [' '] ++ Numeral.decimalSpaces 5 r.value
  else name ++ " not yet known".toList

namespace SymbolReport

/-- The symbol table with its title. -/
def table (records : List SymbolRecord) : Text :=
  let heading := Text.padRight SymbolRecord.nameWidth "Symbol".toList ++ " Hex    Dec".toList
  Text.joinLines (["Symbol Table".toList, [], heading] ++ records.map SymbolRecord.row)

/-- Warnings, number of errors and symbol table of a run. -/
def summary (errors : Int) (records : List SymbolRecord) (warnings : List Text) : Text :=
  Text.joinLines
    (warnings ++ [Numeral.decimal errors ++ " errors".toList, [], table records])

/-- The text of a symbol file. -/
def file (records : List SymbolRecord) : Text := Text.unlines (records.map SymbolRecord.row)

end SymbolReport

end Cosmac
