import Cosmac.Numeral.Padded
import Cosmac.Text.Uppercase

/-!
# Instructions

An instruction has a mnemonic, an opcode and a kind of operand.  The kind decides the size of the
instruction and where the operand goes: registers and devices are part of the opcode byte, all
else follows it.
-/

namespace Cosmac

/-- What an instruction takes as its operand. -/
inductive OperandKind where
  /-- No operand. -/
  | none
  /-- A register, 0 to 15, in the low half of the opcode byte. -/
  | register
  /-- A register other than 0, in the low half of the opcode byte. -/
  | nonzeroRegister
  /-- A device, 0 to 7, in the low three bits of the opcode byte. -/
  | device
  /-- A byte after the opcode. -/
  | immediate
  /-- An address in the page of the operand byte; its low byte follows the opcode. -/
  | shortAddress
  /-- An address; its high and its low byte follow the opcode. -/
  | longAddress
  deriving DecidableEq, Repr

namespace OperandKind

/-- Bytes of an instruction with this operand. -/
def size : OperandKind → Nat
  | none | register | nonzeroRegister | device => 1
  | immediate | shortAddress => 2
  | longAddress => 3

/-- For an operand inside the opcode byte, the number of values its field can hold. -/
def field : OperandKind → Option Nat
  | register | nonzeroRegister => some 16
  | device => some 8
  | none | immediate | shortAddress | longAddress => Option.none

/-- The least operand for which an opcode byte stands for the instruction. -/
def least : OperandKind → Nat
  | nonzeroRegister | device => 1
  | _ => 0

/-- The short code of a kind. -/
def code : OperandKind → String
  | none => "NONE"
  | register => "REG"
  | nonzeroRegister => "REG1"
  | device => "IODEV"
  | immediate => "EXPR"
  | shortAddress => "SADDR"
  | longAddress => "LADDR"

end OperandKind

/-- One mnemonic of the instruction set. -/
structure Instruction where
  /-- The mnemonic, in upper case. -/
  mnemonic : Text
  /-- The opcode byte; bits that carry an operand are 0. -/
  opcode : Nat
  /-- The operand it takes. -/
  operand : OperandKind
  deriving DecidableEq, Repr

namespace Instruction

/-- Bytes of the instruction, without data that may follow it. -/
def size (i : Instruction) : Nat := i.operand.size

/-- The opcode byte that carries the operand, if its place is there. -/
def encode (i : Instruction) (operand : Int) : Nat :=
  match i.operand.field with
  | some values => i.opcode + (operand % values).toNat
  | none => i.opcode

/-- The operand that an opcode byte carries, 0 if its place is elsewhere. -/
def decode (i : Instruction) (byte : Int) : Nat :=
  match i.operand.field with
  | some values => (byte % values).toNat
  | none => 0

/-- The opcode byte is the instruction with one of its operands. -/
def covers (i : Instruction) (byte : Nat) : Bool :=
  match i.operand.field with
  | some values =>
    decide (i.opcode + i.operand.least ≤ byte) && decide (byte < i.opcode + values)
  | none => i.opcode == byte

/-- The instruction for display: opcode, operand and size. -/
def display (i : Instruction) : Text :=
  "InstructionInfo(opcode=$".toList ++ Numeral.hex 2 i.opcode ++ ", ".toList ++
    i.operand.code.toList ++ ", size=".toList ++ Numeral.decimal i.size ++ ")".toList

end Instruction

/-- The address lies in the page of the byte after `pc`, so a short branch at `pc` reaches it. -/
def samePage (pc target : Int) : Bool :=
  (pc + 1) / 256 % 256 == target / 256 % 256

end Cosmac
