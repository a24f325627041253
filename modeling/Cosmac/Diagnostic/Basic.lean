import Cosmac.Diagnostic.Kind
import Cosmac.Numeral.Padded

/-!
# Diagnostics

A diagnostic is one error of a program: its kind, the family it is reported under, and, where
known, the source line and a detail such as the name of a symbol.
-/

namespace Cosmac

/-- The families under which errors are reported. -/
inductive Family where
  /-- Any error of an assembly. -/
  | assembly
  /-- Malformed statement text. -/
  | statement
  /-- A constant is invalid or missing. -/
  | constant
  /-- An expression is missing. -/
  | expression
  /-- A symbol has no value. -/
  | undefinedSymbol
  /-- A symbol is defined again. -/
  | duplicateSymbol
  /-- A short branch leaves its page. -/
  | branchRange
  /-- A register or device number is out of range. -/
  | operandRange
  /-- A statement changed its size. -/
  | phase
  deriving DecidableEq, Repr

/-- The kind that stands for a family where no other is given. -/
def Family.defaultKind : Family → Kind
  | assembly | statement => .malformed
  | constant => .missingConstant
  | expression => .missingExpression
  | undefinedSymbol => .undefinedSymbol
  | duplicateSymbol => .duplicateSymbol
  | branchRange => .branchOutOfPage
  | operandRange => .invalidRegister
  | phase => .sizeChanged

/-- The family of the errors found by reading a statement. -/
def Kind.family : Kind → Family
  | invalidBinary | invalidDecimal | invalidHex | missingConstant => .constant
  | missingExpression => .expression
  | invalidRegister | invalidDevice => .operandRange
  | _ => .statement

/-- One error of a program. -/
structure Diagnostic where
  /-- The family it is reported under. -/
  family : Family
  /-- What is wrong. -/
  kind : Kind
  /-- The source line, where known. -/
  line : Option Int := none
  /-- More about it, such as the name of a symbol. -/
  detail : Option Text := none
  deriving DecidableEq, Repr

namespace Diagnostic

/-! ### Causes -/

/-- An error found by reading a statement. -/
def ofKind (kind : Kind) (line : Option Int := none) : Diagnostic :=
  { family := kind.family, kind, line }

/-- No instruction or directive has this name. -/
def unknownMnemonic (name : Text) : Diagnostic :=
  { family := .statement, kind := .invalidMnemonic, detail := some name }

/-- The symbol has no value. -/
def undefined (name : Text) (line : Option Int := none) : Diagnostic :=
  { family := .undefinedSymbol, kind := .undefinedSymbol, line, detail := some name }

/-- The symbol has a definition already, on the line `first` where that is known. -/
def duplicate (name : Text) (line first : Option Int := none) : Diagnostic :=
  let detail :=
    match first with
    | some number => name ++ ", first defined at line ".toList ++ Numeral.decimal number
    | none => name
  { family := .duplicateSymbol, kind := .duplicateSymbol, line, detail := some detail }

/-- A short branch at `pc` cannot reach `target`. -/
def branchRange (target pc : Int) (line : Option Int := none) : Diagnostic :=
  { family := .branchRange, kind := .branchOutOfPage, line
    detail := some ("target $".toList ++ Numeral.hex 4 target ++ " from $".toList ++
      Numeral.hex 4 pc) }

/-- A statement laid out with `expected` bytes has `actual` ones. -/
def phase (expected actual : Int) (line : Option Int := none) : Diagnostic :=
  { family := .phase, kind := .sizeChanged, line
    detail := some (Numeral.decimal actual ++ " bytes, laid out as ".toList ++
      Numeral.decimal expected) }

/-- The same error, on the given source line. -/
def atLine (d : Diagnostic) (line : Int) : Diagnostic := { d with line := some line }

/-! ### Wording -/

/-- The kind's text, with the detail in parentheses if there is one. -/
def text (d : Diagnostic) : Text :=
  match d.detail with
  | none | some [] => d.kind.message.toList
  | some detail => d.kind.message.toList ++ " (".toList ++ detail ++ ")".toList

/-- The error as a report prints it. -/
def message (d : Diagnostic) : Text :=
  match d.line with
  | some number => "line ".toList ++ Numeral.decimal number ++ ": error: ".toList ++ d.text
  | none => "error: ".toList ++ d.text

end Diagnostic

end Cosmac
