import Cosmac.Instruction.Basic

/-!
# The instruction set

Every mnemonic of the CDP1802 with its opcode and operand.  Some are aliases of one opcode (`BDF`,
`BPZ`, `BGE`); the one that stands first is the name that decoding gives back.
-/

namespace Cosmac.Instruction

/-- A row of the table. -/
def row (mnemonic : String) (opcode : Nat) (operand : OperandKind) : Instruction :=
  ⟨mnemonic.toList, opcode, operand⟩

/-- Register operations. -/
def registerOperations : List Instruction :=
  [row "INC" 0x10 .register, row "DEC" 0x20 .register, row "IRX" 0x60 .none,
   row "GLO" 0x80 .register, row "GHI" 0x90 .register, row "PLO" 0xA0 .register,
   row "PHI" 0xB0 .register]

/-- Loads and stores. -/
def memoryReference : List Instruction :=
  [row "LDN" 0x00 .nonzeroRegister, row "LDA" 0x40 .register, row "LDX" 0xF0 .none,
   row "LDXA" 0x72 .none, row "LDI" 0xF8 .immediate, row "STR" 0x50 .register,
   row "STXD" 0x73 .none]

/-- Logic and shifts. -/
def logicOperations : List Instruction :=
  [row "OR" 0xF1 .none, row "ORI" 0xF9 .immediate, row "XOR" 0xF3 .none,
   row "XRI" 0xFB .immediate, row "AND" 0xF2 .none, row "ANI" 0xFA .immediate,
   row "SHR" 0xF6 .none, row "SHRC" 0x76 .none, row "RSHR" 0x76 .none, row "SHL" 0xFE .none,
   row "SHLC" 0x7E .none, row "RSHL" 0x7E .none]

/-- Addition and subtraction. -/
def arithmetic : List Instruction :=
  [row "ADD" 0xF4 .none, row "ADI" 0xFC .immediate, row "ADC" 0x74 .none,
   row "ADCI" 0x7C .immediate, row "SD" 0xF5 .none, row "SDI" 0xFD .immediate,
   row "SDB" 0x75 .none, row "SDBI" 0x7D .immediate, row "SM" 0xF7 .none,
   row "SMI" 0xFF .immediate, row "SMB" 0x77 .none, row "SMBI" 0x7F .immediate]

/-- Branches within a page. -/
def shortBranches : List Instruction :=
  [row "BR" 0x30 .shortAddress, row "BQ" 0x31 .shortAddress, row "BZ" 0x32 .shortAddress,
   row "BDF" 0x33 .shortAddress, row "BPZ" 0x33 .shortAddress, row "BGE" 0x33 .shortAddress,
   row "B1" 0x34 .shortAddress, row "B2" 0x35 .shortAddress, row "B3" 0x36 .shortAddress,
   row "B4" 0x37 .shortAddress, row "SKP" 0x38 .none, row "NBR" 0x38 .none,
   row "BNQ" 0x39 .shortAddress, row "BNZ" 0x3A .shortAddress, row "BNF" 0x3B .shortAddress,
   row "BM" 0x3B .shortAddress, row "BL" 0x3B .shortAddress, row "BN1" 0x3C .shortAddress,
   row "BN2" 0x3D .shortAddress, row "BN3" 0x3E .shortAddress, row "BN4" 0x3F .shortAddress]

/-- Branches to any address. -/
def longBranches : List Instruction :=
  [row "LBR" 0xC0 .longAddress, row "LBQ" 0xC1 .longAddress, row "LBZ" 0xC2 .longAddress,
   row "LBDF" 0xC3 .longAddress, row "LSKP" 0xC8 .none, row "NLBR" 0xC8 .longAddress,
   row "LBNQ" 0xC9 .longAddress, row "LBNZ" 0xCA .longAddress, row "LBNF" 0xCB .longAddress]

/-- Long skips. -/
def longSkips : List Instruction :=
  [row "LSNQ" 0xC5 .longAddress, row "LSNZ" 0xC6 .longAddress, row "LSNF" 0xC7 .longAddress,
   row "LSIE" 0xCC .longAddress, row "LSQ" 0xCD .longAddress, row "LSZ" 0xCE .longAddress,
   row "LSDF" 0xCF .longAddress]

/-- Control. -/
def control : List Instruction :=
  [row "IDL" 0x00 .none, row "NOP" 0xC4 .none, row "SEP" 0xD0 .register,
   row "SEX" 0xE0 .register, row "SEQ" 0x7B .none, row "REQ" 0x7A .none, row "SAV" 0x78 .none,
   row "MARK" 0x79 .none, row "RET" 0x70 .none, row "DIS" 0x71 .none]

/-- Input and output. -/
def inputOutput : List Instruction :=
  [row "OUT" 0x60 .device, row "INP" 0x68 .device]

/-- All instructions, in the order of the manual. -/
def all : List Instruction :=
  registerOperations ++ memoryReference ++ logicOperations ++ arithmetic ++ shortBranches ++
    longBranches ++ longSkips ++ control ++ inputOutput

/-- The instruction with this mnemonic, in either case. -/
def ofMnemonic? (name : Text) : Option Instruction :=
  all.find? (·.mnemonic == Text.upper name)

/-- The instruction that an opcode byte stands for.  An instruction that is the whole byte comes
before one that carries a register or a device in it, so `$00` is `IDL` and `$60` is `IRX`. -/
def ofOpcode? (byte : Nat) : Option Instruction :=
  (all.find? fun i => i.operand.field.isNone && i.covers byte).or
    (all.find? fun i => i.operand.field.isSome && i.covers byte)

end Cosmac.Instruction
