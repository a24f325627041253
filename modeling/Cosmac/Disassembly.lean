import Cosmac.AddressNames
import Cosmac.Instruction.Table
import Cosmac.Numeral.Padded
import Cosmac.Slice
import Cosmac.Word

/-!
# Disassembly

Bytes as instructions.  Every byte starts an instruction but `$68`, which is shown as data.  An
instruction that the data cut off is shown with `???` for its operand.  The result can be printed
as a listing, or as source text that assembles to the same bytes.
-/

namespace Cosmac

/-- An instruction found in memory. -/
structure Disassembled where
  /-- Its address. -/
  address : Int
  /-- Its opcode byte. -/
  opcode : UInt8
  /-- Its mnemonic. -/
  mnemonic : Text
  /-- The kind of its operand. -/
  kind : OperandKind
  /-- Its operand: register, device, byte or address. -/
  operand : Option Int
  /-- The operand as source text. -/
  operandText : Text
  /-- Its bytes. -/
  raw : List UInt8
  /-- The number of bytes it takes. -/
  size : Nat
  /-- A comment, which may be empty. -/
  comment : Text
  deriving DecidableEq, Repr

namespace Disassembled

/-! ### Decoding -/

/-- The comment of an immediate byte: the character it stands for. -/
def characterComment (value : Nat) : Text :=
  if 0x20 ≤ value ∧ value < 0x7F then ['\'', Char.ofNat value, '\''] else []

/-- The operand that follows an opcode: value, source text and comment. -/
def operandOf (names : AddressNames) (i : Instruction) (address : Int) (opcode : UInt8)
    (operands : List UInt8) : Option Int × Text × Text :=
  let field := i.decode opcode.toNat
  let target (t : Int) := (some t, "#".toList ++ Numeral.hex 4 t, (names.get? t).getD [])
  match i.operand, operands with
  | .register, _ | .nonzeroRegister, _ => (some field, "R".toList ++ Numeral.hexDigits field, [])
  | .device, _ => (some field, Numeral.decimal field, [])
  | .immediate, b :: _ =>
    (some b.toNat, "#".toList ++ Numeral.hexByte b, characterComment b.toNat)
  -- the page is that of the operand byte
  | .shortAddress, low :: _ => target (highByte (address + 1) * 0x100 + low.toNat)
  | .longAddress, high :: low :: _ => target (high.toNat * 0x100 + low.toNat)
  | _, _ => (none, [], [])

/-- A byte that starts no instruction. -/
def dataByte (address : Int) (opcode : UInt8) : Disassembled where
  address
  opcode
  mnemonic := "DC".toList
  kind := .none
  operand := some opcode.toNat
  operandText := "#".toList ++ Numeral.hexByte opcode
  raw := [opcode]
  size := 1
  comment := "undefined opcode".toList

/-- An instruction that the data cut off. -/
def incomplete (i : Instruction) (address : Int) (opcode : UInt8) (rest : List UInt8) :
    Disassembled where
  address
  opcode
  mnemonic := i.mnemonic
  kind := i.operand
  operand := none
  operandText := "???".toList
  raw := opcode :: rest
  size := rest.length + 1
  comment := "incomplete instruction".toList

/-- An instruction with all its bytes. -/
def complete (names : AddressNames) (i : Instruction) (address : Int) (opcode : UInt8)
    (operands : List UInt8) : Disassembled :=
  let (operand, operandText, comment) := operandOf names i address opcode operands
  { address, opcode, mnemonic := i.mnemonic, kind := i.operand, operand, operandText,
    raw := opcode :: operands, size := i.size, comment }

/-- The instruction that starts with an opcode byte, before the rest of the data. -/
def decode (names : AddressNames) (address : Int) (opcode : UInt8) (rest : List UInt8) :
    Disassembled :=
  match Instruction.ofOpcode? opcode.toNat with
  | none => dataByte address opcode
  | some i =>
    if rest.length + 1 < i.size then incomplete i address opcode rest
    else complete names i address opcode (rest.take (i.size - 1))

/-! ### Printing -/

/-- The instruction as a statement. -/
def source (d : Disassembled) : Text :=
  if d.operandText.isEmpty then d.mnemonic else d.mnemonic ++ [' '] ++ d.operandText

/-- The instruction as a row of a listing: address, bytes, statement and comment. -/
def row (d : Disassembled) : Text :=
  let bytes := Text.padRight 8 ([' '].intercalate (d.raw.map Numeral.hexByte))
  let front := Numeral.hex 4 d.address ++ ": ".toList ++ bytes ++ "  ".toList
  if d.comment.isEmpty then front ++ d.source
  else front ++ Text.padRight 12 d.source ++ " .. ".toList ++ d.comment

end Disassembled

/-- Where a disassembly stops before the end of the data. -/
structure Limits where
  /-- The most instructions. -/
  count : Option Int := none
  /-- No instruction starts at this offset or behind it. -/
  maxBytes : Option Int := none
  deriving DecidableEq, Repr

namespace Limits

/-- The number is below the limit, if there is one. -/
def below (n : Nat) : Option Int → Bool
  | none => true
  | some limit => decide ((n : Int) < limit)

/-- Another instruction may start, after `index` others, at `offset`. -/
def allow (l : Limits) (index offset : Nat) : Bool := below index l.count && below offset l.maxBytes

end Limits

namespace Disassembly

/-- The instructions of the data, the first of which has the given index, offset and address.
Behind the first, addresses are words. -/
def run (names : AddressNames) (limits : Limits) (index offset : Nat) (address : Int)
    (data : List UInt8) : List Disassembled :=
  match data with
  | [] => []
  | opcode :: rest =>
    if limits.allow index offset then
      let d := Disassembled.decode names address opcode rest
      d :: run names limits (index + 1) (offset + d.size) (word (address + d.size))
        (rest.drop (d.size - 1))
    else []
termination_by data.length
decreasing_by
  simp only [List.length_drop, List.length_cons]
  omega

/-- The instructions of the data. -/
def disassemble (names : AddressNames) (limits : Limits) (address : Int) (data : List UInt8) :
    List Disassembled :=
  run names limits 0 0 address data

/-- Why there is no instruction at an offset. -/
inductive OffsetFault where
  /-- The data end before it. -/
  | beyond
  /-- It counts from the end and reaches out of the data. -/
  | outside
  deriving DecidableEq, Repr

/-- The text about an offset at which the data end. -/
def beyondMessage (offset : Int) (data : List UInt8) : Text :=
  "Offset ".toList ++ Numeral.decimal offset ++ " beyond data length ".toList ++
    Numeral.decimal data.length

/-- An instruction with the bytes that were found for it.  All of them must be there, unless it has
no operand to take from them. -/
def withBytes (names : AddressNames) (i : Instruction) (address : Int) (opcode : UInt8)
    (raw : List UInt8) : Except OffsetFault Disassembled :=
  let whole := Disassembled.complete names i address opcode (raw.drop 1)
  if raw.length = i.size then .ok whole
  else if i.operand = .none then .ok { whole with raw }
  else .error .outside

/-- The instruction at an offset.  An offset below zero counts from the end of the data, and so does
the end of the instruction as long as it is below zero. -/
def decodeAt (names : AddressNames) (address : Int) (data : List UInt8) (offset : Int) :
    Except OffsetFault Disassembled :=
  let place := placeOf data.length offset
  if data.length ≤ offset then .error .beyond
  else if place < 0 then .error .outside
  else
    match data.drop place.toNat with
    | [] => .error .outside
    | opcode :: rest =>
      match Instruction.ofOpcode? opcode.toNat with
      | none => .ok (Disassembled.dataByte address opcode)
      | some i =>
        if data.length < offset + i.size then
          .ok (Disassembled.incomplete i address opcode rest)
        else withBytes names i address opcode (slice data offset (offset + i.size))

/-- The name of an instruction's address, if it has one that is not empty. -/
def label? (names : AddressNames) (d : Disassembled) : Option Text :=
  (names.get? d.address).filter (!·.isEmpty)

/-- A listing: each instruction in a row, after its label if it has one. -/
def listing (names : AddressNames) (instructions : List Disassembled) : Text :=
  Text.joinLines <| instructions.flatMap fun d =>
    match label? names d with
    | some label => [label ++ ":".toList, d.row]
    | none => [d.row]

/-- The width of the label field of source text. -/
def labelWidth : Nat := 7

/-- Source text: origin, each instruction with its label, end. -/
def sourceText (names : AddressNames) (address : Int) (instructions : List Disassembled) : Text :=
  let statement (label t : Text) := Text.padRight labelWidth label ++ t
  let body := instructions.map fun d =>
    match label? names d with
    | some label => statement (label ++ ":".toList) d.source
    | none => statement [] d.source
  Text.unlines
    (statement [] ("ORG #".toList ++ Numeral.hex 4 address) :: body ++
      [statement [] "END".toList])

end Disassembly

end Cosmac
