import Cosmac.Expr.Eval
import Cosmac.Statement.Basic
import Cosmac.Statement.Shape

/-!
# Reading a statement in a context

The shape of a statement is resolved part by part, from left to right.  The first error ends it;
all parts before the error keep their effect on the result.  The outcome depends on the text, the
location counter, the pass and the symbols, and on nothing else.
-/

namespace Cosmac

/-- What has been resolved so far, and the error that ended it, if there was one. -/
abbrev Progress := Reading × Option Diagnostic

/-! ### Data -/

/-- The bytes of a data item. -/
def Item.bytes (c : Context) : Item → Except Diagnostic (List UInt8)
  | .string text => .ok (text.map fun char => byte char.toNat)
  | .expression e =>
    match e.eval c with
    | .error d => .error d
    | .ok v => .ok v.bytes

namespace Reading

/-- Adds data bytes. -/
def append (r : Reading) (bytes : List UInt8) : Reading :=
  { r with data := r.data ++ bytes, size := r.size + bytes.length }

/-- Adds the bytes of the items, up to the first error. -/
def addItems (c : Context) : List Item → Reading → Progress
  | [], r => (r, none)
  | item :: items, r =>
    match item.bytes c with
    | .error d => (r, some d)
    | .ok bytes => addItems c items (r.append bytes)

/-- Adds a data list. -/
def addData (c : Context) (list : DataList) (r : Reading) : Progress :=
  match addItems c list.items r with
  | (r, some d) => (r, some d)
  | (r, none) => (r, list.fault.map (Break.diagnostic c))

/-! ### Operands -/

/-- Stores a value. -/
def setValue (r : Reading) (v : Value) : Reading :=
  { r with value := v.value, unresolved := v.unresolved }

/-- Stores the value of an expression that ends the statement. -/
def addLast (c : Context) (operand : Operand Expr) (fault : Option Kind) (r : Reading) : Progress :=
  match operand with
  | .broken b => (r, some (b.diagnostic c))
  | .read e =>
    match e.eval c with
    | .error d => (r, some d)
    | .ok v => (r.setValue v, fault.map (Diagnostic.ofKind ·))

/-- The numbers that a register operand can have. -/
def registerClass : OperandKind → RegisterClass
  | .device => .device
  | _ => .register

/-- Stores a register or device.  Register 0 is refused where it would be another instruction,
unless its number is not known yet. -/
def addRegister (c : Context) (kind : OperandKind) (term : RegisterTerm) (r : Reading) : Progress :=
  match term.eval c (registerClass kind) with
  | .error d => (r, some d)
  | .ok v =>
    if kind = .nonzeroRegister ∧ v.value = 0 ∧ v.unresolved = false then
      (r.setValue v, some (.ofKind .invalidRegister))
    else (r.setValue v, none)

/-- Stores an operand behind the opcode.  An immediate operand that is an address takes two bytes.
A short branch must stay in its page, which is checked in the final pass. -/
def addExpression (c : Context) (kind : OperandKind) (e : Expr) (r : Reading) : Progress :=
  match e.eval c with
  | .error d => (r, some d)
  | .ok v =>
    let r := r.setValue v
    match kind with
    | .immediate =>
      if v.addressOf then ({ r with operandSize := 2, size := r.size + 1 }, none)
      else ({ r with operandSize := 1 }, none)
    | .shortAddress =>
      if c.pass.isFinal && !samePage c.pc v.value then (r, some (.branchRange v.value c.pc))
      else ({ r with operandSize := 1 }, none)
    | _ => ({ r with operandSize := 2 }, none)

/-- Stores the operand of an instruction. -/
def addOperand (c : Context) (kind : OperandKind) (operand : Operand Argument) (r : Reading) :
    Progress :=
  match operand with
  | .broken b => (r, some (b.diagnostic c))
  | .read .none => (r, none)
  | .read (.register term) => addRegister c kind term r
  | .read (.expression e) => addExpression c kind e r

/-- Stores an instruction with its operand and data. -/
def addInstruction (c : Context) (i : Instruction) (operand : Operand Argument) (data : DataList)
    (r : Reading) : Progress :=
  match addOperand c i.operand operand { r with instruction := some i, size := i.size } with
  | (r, some d) => (r, some d)
  | (r, none) => addData c data r

/-! ### Statements -/

/-- Closes a statement: an error makes it fail, else it gets its status and its code. -/
def settle (status : Status) : Progress → Reading
  | (r, some d) => { r with status := .failed d }
  | (r, none) => { r with status, code := encode { r with status } }

end Reading

/-- What a shape stands for in a context. -/
def Shape.resolve (c : Context) (s : Shape) : Reading :=
  let r : Reading := { label := s.label }
  match s.operation with
  | .empty => Reading.settle .nop (r, none)
  | .data list => Reading.settle .data (r.addData c list)
  | .equate operand fault =>
    Reading.settle .equate ({ r with equate := true }.addLast c operand fault)
  | .origin operand fault => Reading.settle .origin (r.addLast c operand fault)
  | .page => Reading.settle .page (r, none)
  | .finish => Reading.settle .finish (r, none)
  | .instruction i operand data => Reading.settle .instruction (r.addInstruction c i operand data)
  | .malformed d => Reading.settle .nop (r, some d)

/-- Reads the text of a statement in a context. -/
def Reading.ofText (c : Context) (text : Text) : Reading := (Shape.read text).resolve c

/-- Reads a statement in a context. -/
def Statement.parse (c : Context) (s : Statement) : Statement :=
  { s with reading := .ofText c s.text }

end Cosmac
