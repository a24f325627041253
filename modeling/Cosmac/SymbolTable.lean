import Cosmac.Diagnostic.Basic
import Cosmac.Text.Uppercase
import Cosmac.Word

/-!
# Symbol table

The symbols of a program in the order of their definition.  Names are stored and looked up in
upper case.  A symbol is created by its first definition; a later one only marks it as a
duplicate.  `define`, `markDuplicate` and `updateValue` are the whole interface for changes, and
each of them either succeeds or leaves the table as it was.
-/

namespace Cosmac

/-- What stands for the position of a definition made before the program. -/
def predefinedIndex : Int := -1

/-- One entry of the symbol table. -/
structure Symbol where
  /-- The name, in upper case. -/
  name : Text
  /-- The value, a word, once it is known. -/
  value : Option Int
  /-- The name has been defined again. -/
  duplicate : Bool := false
  /-- The position of the defining statement. -/
  index : Int := predefinedIndex
  /-- The source line of the defining statement. -/
  line : Option Int := none
  deriving DecidableEq, Repr

/-- A row of the printed symbol table. -/
structure SymbolRecord where
  /-- The name. -/
  name : Text
  /-- The value is known. -/
  resolved : Bool
  /-- The value, 0 if it is not known. -/
  value : Int
  deriving DecidableEq, Repr

/-- The row of a symbol. -/
def Symbol.toRecord (s : Symbol) : SymbolRecord := ⟨s.name, s.value.isSome, s.value.getD 0⟩

/-- The symbols of a program, in order of definition. -/
structure SymbolTable where
  /-- The symbols. -/
  symbols : List Symbol := []
  deriving DecidableEq, Repr

namespace SymbolTable

/-- The symbol with this name, in either case. -/
def lookup (t : SymbolTable) (name : Text) : Option Symbol :=
  t.symbols.find? (·.name == Text.upper name)

/-- There is a symbol with this name. -/
def contains (t : SymbolTable) (name : Text) : Bool := (t.lookup name).isSome

/-- The value of the symbol with this name, if it has one. -/
def valueOf (t : SymbolTable) (name : Text) : Option Int := (t.lookup name).bind (·.value)

/-- Adds a symbol at the end. -/
def insert (t : SymbolTable) (s : Symbol) : SymbolTable := ⟨t.symbols ++ [s]⟩

/-- Changes the symbol with this name. -/
def modify (t : SymbolTable) (name : Text) (f : Symbol → Symbol) : SymbolTable :=
  ⟨t.symbols.map fun s => if s.name == Text.upper name then f s else s⟩

/-- The symbol that a definition creates. -/
def newSymbol (name : Text) (value : Option Int) (index : Int) (line : Option Int) : Symbol :=
  { name := Text.upper name, value := value.map word, index, line }

/-- Creates a symbol; its name must be new. -/
def define (t : SymbolTable) (name : Text) (value : Option Int) (index : Int)
    (line : Option Int) : Except Diagnostic SymbolTable :=
  match t.lookup name with
  | some first => .error (.duplicate (Text.upper name) line first.line)
  | none => .ok (t.insert (newSymbol name value index line))

/-- Marks a symbol as defined again. -/
def markDuplicate (t : SymbolTable) (name : Text) : Except Diagnostic SymbolTable :=
  match t.lookup name with
  | some _ => .ok (t.modify name fun s => { s with duplicate := true })
  | none => .error (.undefined (Text.upper name))

/-- Gives a symbol a new value. -/
def updateValue (t : SymbolTable) (name : Text) (value : Option Int) :
    Except Diagnostic SymbolTable :=
  match t.lookup name with
  | some _ => .ok (t.modify name fun s => { s with value := value.map word })
  | none => .error (.undefined (Text.upper name))

/-- A definition in a program: creates the symbol, or marks it as a duplicate. -/
def bind (t : SymbolTable) (name : Text) (value : Option Int) (index : Int)
    (line : Option Int) : SymbolTable :=
  match t.lookup name with
  | some _ => t.modify name fun s => { s with duplicate := true }
  | none => t.insert (newSymbol name value index line)

/-- The rows of the printed table. -/
def records (t : SymbolTable) : List SymbolRecord := t.symbols.map Symbol.toRecord

end SymbolTable

end Cosmac
