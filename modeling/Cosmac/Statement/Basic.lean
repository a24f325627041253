import Cosmac.Context
import Cosmac.Instruction.Table
import Cosmac.Statement.Split
import Cosmac.Text.Lines

/-!
# Statements

A statement of the source program, and what the last pass made of it.
-/

namespace Cosmac

/-- What a statement turned out to be. -/
inductive Status where
  /-- Nothing, or a label alone. -/
  | nop
  /-- Data. -/
  | data
  /-- The definition of a symbol. -/
  | equate
  /-- A new location counter. -/
  | origin
  /-- A new page. -/
  | page
  /-- The end of the program. -/
  | finish
  /-- An instruction. -/
  | instruction
  /-- An error. -/
  | failed (d : Diagnostic)
  deriving DecidableEq, Repr

/-- The error of a statement, if it is one. -/
def Status.error? : Status → Option Diagnostic
  | failed d => some d
  | _ => none

/-- What a pass made of a statement.  After an error the parts that come before it are kept. -/
structure Reading where
  /-- The label, or the name of an equate. -/
  label : Option Text := none
  /-- The statement has the form of an equate. -/
  equate : Bool := false
  /-- The operand of an instruction, the address of an origin, the value of an equate. -/
  value : Int := 0
  /-- The value rests on a name that had none. -/
  unresolved : Bool := false
  /-- The instruction. -/
  instruction : Option Instruction := none
  /-- Bytes of the operand behind the opcode. -/
  operandSize : Nat := 0
  /-- The bytes of the data list. -/
  data : List UInt8 := []
  /-- Bytes that the statement takes. -/
  size : Nat := 0
  /-- The code. -/
  code : List UInt8 := []
  /-- What the statement turned out to be. -/
  status : Status := .nop
  deriving DecidableEq, Repr

/-- A statement of the source program. -/
structure Statement where
  /-- Its text. -/
  text : Text
  /-- The number of its source line. -/
  line : Int
  /-- Its position among the statements of the program. -/
  index : Nat
  /-- What the last pass made of it. -/
  reading : Reading := {}
  deriving DecidableEq, Repr

namespace Statement

/-- The statements of a program, numbered from 0, with the numbers of their lines from 1. -/
def ofSource (lines : List Text) : List Statement :=
  let texts := (lines.zipIdx 1).flatMap fun (line, number) =>
    numberedTexts (Text.dropTerminator line) number
  texts.zipIdx.map fun ((text, line), index) => { text, line, index }

end Statement

namespace Reading

/-- The operand bytes behind an opcode, high byte first. -/
def operandBytes (r : Reading) : List UInt8 :=
  if r.operandSize = 2 then wordBytes r.value
  else if r.operandSize = 1 then [byte r.value]
  else []

/-- The code of a statement that is well formed. -/
def encode (r : Reading) : List UInt8 :=
  match r.status, r.instruction with
  | .data, _ => r.data
  | .instruction, some i => UInt8.ofNat (i.encode r.value) :: r.operandBytes ++ r.data
  | _, _ => []

end Reading

end Cosmac
