import Cosmac.Context
import Cosmac.Expr.Basic

/-!
# What an expression stands for

Evaluation of expressions and register operands in a context.  Every value comes with a number of
bytes, which decides how much room a data item takes.  In the first pass a name without a value
counts as 0 and marks the result as unresolved; in the final pass it is an error.  A name that is
not in the table and consists of one to four hexadecimal digits is a hexadecimal constant.
-/

namespace Cosmac

/-- What an expression stands for. -/
structure Value where
  /-- The value. -/
  value : Int
  /-- The number of bytes it takes as a data item, two or else one. -/
  size : Int := 1
  /-- It is an address, `A( )`. -/
  addressOf : Bool := false
  /-- A name without a value was taken as 0. -/
  unresolved : Bool := false
  deriving DecidableEq, Repr

/-- The value as a data item, high byte first. -/
def Value.bytes (v : Value) : List UInt8 :=
  if v.size = 2 then wordBytes v.value else [byte v.value]

/-- A value of its own size: two bytes above 255, else one. -/
def Value.ofNat (n : Nat) : Value := { value := n, size := Token.width n }

/-- A name without a value. -/
def Context.undefined (c : Context) (name : Text) : Except Diagnostic Value :=
  if c.pass.isFinal then .error (.undefined name) else .ok { value := 0, unresolved := true }

/-- The value of a name. -/
def Context.nameValue (c : Context) (name : Text) : Except Diagnostic Value :=
  match c.symbols.lookup name with
  | some symbol =>
    match symbol.value with
    | some value => .ok { value }
    | none => c.undefined name
  | none => if Token.isHexWord name then .ok (.ofNat (Token.number 16 name)) else c.undefined name

/-- The value of a term. -/
def Term.eval (c : Context) : Term → Except Diagnostic Value
  | .here => .ok { value := c.pc, size := 2 }
  | .constant n => .ok (.ofNat n)
  | .character b => .ok { value := b }
  | .name n => c.nameValue n

/-- The value with an offset, if there is one: a word of two bytes. -/
def Value.shift (v : Value) : Option Int → Value
  | none => v
  | some amount => { v with value := word (v.value + amount), size := 2 }

/-- The part of a value that a form selects. -/
def Selector.select (v : Value) : Selector → Value
  | .plain => v
  | .address => { value := v.value, size := 2, addressOf := true, unresolved := v.unresolved }
  | .low => { value := lowByte v.value, unresolved := v.unresolved }
  | .high => { value := highByte v.value, unresolved := v.unresolved }

/-- The value of an expression. -/
def Expr.eval (c : Context) (e : Expr) : Except Diagnostic Value :=
  match e.term.eval c with
  | .error d => .error d
  | .ok v => .ok (e.selector.select (v.shift e.offset))

/-- The error of an expression that broke off.  A term that had been read is evaluated first, and
its error comes first. -/
def Break.diagnostic (c : Context) (b : Break) : Diagnostic :=
  match b.term with
  | none => .ofKind b.kind
  | some term =>
    match term.eval c with
    | .error d => d
    | .ok _ => .ofKind b.kind

/-- Reads and evaluates an expression.  The text behind the last character used is returned, also
after an error. -/
def Expr.evaluate (c : Context) (t : Text) (scan : Token.Scanner := Token.next) :
    Except Diagnostic Value × Text :=
  match readHead t scan with
  | (.error kind, rest) => (.error (.ofKind kind), rest)
  | (.ok (selector, term), rest) =>
    match term.eval c with
    | .error d => (.error d, rest)
    | .ok v =>
      match readTail selector rest scan with
      | (.error kind, rest) => (.error (.ofKind kind), rest)
      | (.ok offset, rest) => (.ok (selector.select (v.shift offset)), rest)

/-! ### Registers and devices -/

/-- The numbers an operand in the opcode byte can have. -/
inductive RegisterClass where
  /-- Registers, 0 to 15. -/
  | register
  /-- Devices, 0 to 7. -/
  | device
  deriving DecidableEq, Repr

namespace RegisterClass

/-- The greatest number of the class. -/
def limit : RegisterClass → Nat
  | register => 15
  | device => 7

/-- What is wrong with a greater number. -/
def kind : RegisterClass → Kind
  | register => .invalidRegister
  | device => .invalidDevice

/-- The number, if it belongs to the class. -/
def check (r : RegisterClass) (n : Nat) : Except Diagnostic Value :=
  if n > r.limit then .error (.ofKind r.kind) else .ok { value := n }

end RegisterClass

/-- The number of a register or device operand.  A symbol gives the low bits of its value, a name
that is not in the table is read as `R` and a digit, or else as a hexadecimal number. -/
def RegisterTerm.eval (c : Context) (r : RegisterClass) : RegisterTerm → Except Diagnostic Value
  | .value n => r.check n
  | .name w =>
    match c.symbols.lookup w with
    | some symbol =>
      match symbol.value with
      | some v => .ok { value := v % (r.limit + 1) }
      | none => c.undefined w
    | none =>
      match w with
      | ['R', digit] =>
        if Token.isHexWord [digit] then .ok { value := Token.number 16 [digit] }
        else c.undefined w
      | _ => if Token.isHexWord w then r.check (Token.number 16 w) else c.undefined w

/-- Reads and evaluates a register or device operand. -/
def RegisterTerm.evaluate (c : Context) (r : RegisterClass) (t : Text)
    (scan : Token.Scanner := Token.next) : Except Diagnostic Value × Text :=
  match RegisterTerm.read t scan with
  | (.error kind, rest) => (.error (.ofKind kind), rest)
  | (.ok term, rest) => (term.eval c r, rest)

end Cosmac
