import Cosmac.Numeral.Literal
import Cosmac.Text.Lines

/-!
# Names of addresses

A disassembly can be annotated with names for addresses.  They are given as pairs, or read from a
symbol file: each row with three fields whose second is a hexadecimal number names an address, and
the first name for an address counts.
-/

namespace Cosmac

/-- Addresses with their names; an address occurs once. -/
structure AddressNames where
  /-- The pairs. -/
  entries : List (Int × Text) := []
  deriving DecidableEq, Repr

namespace AddressNames

/-- The name of an address. -/
def get? (names : AddressNames) (address : Int) : Option Text := names.entries.lookup address

/-- Names an address, unless it has a name. -/
def insertNew (names : AddressNames) (address : Int) (name : Text) : AddressNames :=
  if (names.get? address).isSome then names else ⟨names.entries ++ [(address, name)]⟩

/-- Names an address, in place of any name it has. -/
def insert (names : AddressNames) (address : Int) (name : Text) : AddressNames :=
  if (names.get? address).isSome then
    ⟨names.entries.map fun entry => if entry.1 = address then (address, name) else entry⟩
  else ⟨names.entries ++ [(address, name)]⟩

/-- The names given by pairs; of two for one address the later counts. -/
def ofPairs (pairs : List (Int × Text)) : AddressNames :=
  pairs.foldl (fun names pair => names.insert pair.1 pair.2) {}

/-- Adds the name that a row of a symbol file gives. -/
def insertRow (names : AddressNames) (row : Text) : AddressNames :=
  match Text.fields row with
  | [name, value, _] =>
    match Numeral.integer? 16 value with
    | some address => names.insertNew address name
    | none => names
  | _ => names

/-- The names that the text of a symbol file gives. -/
def ofSymbolFile (text : Text) : AddressNames := (Text.splitLines text).foldl insertRow {}

end AddressNames

end Cosmac
