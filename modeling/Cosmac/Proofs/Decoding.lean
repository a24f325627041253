import Cosmac.Disassembly
import Cosmac.Proofs.Reading
import Cosmac.Proofs.SourceText
import Mathlib.Data.List.Basic

/-!
# What a disassembly says

A disassembly cuts the data into instructions, and prints each of them as a statement.

* `flatMap_raw_disassemble`, `consecutive_disassemble`: the bytes of the instructions are the data,
  and their addresses follow each other;
* `whole_dropLast_disassemble`: only the last instruction can be cut off;
* `printable_decode`: the printed statement says what the instruction is;
* `code_resolve_iff`: at the address of the instruction, the statement has the bytes of the
  instruction as its code exactly if no symbol stands in for its register.
-/

namespace Cosmac

/-! ### The instruction table -/

namespace Instruction

/-- What is found for an opcode byte stands in the table and covers the byte. -/
theorem mem_of_ofOpcode {b : Nat} {i : Instruction} (h : ofOpcode? b = some i) :
    i ∈ all ∧ i.covers b = true := by
  unfold ofOpcode? at h
  rcases Option.or_eq_some_iff.mp h with h | ⟨_, h⟩
  · have hfound := List.find?_some h
    exact ⟨List.mem_of_find?_eq_some h, (Bool.and_eq_true_iff.mp hfound).2⟩
  · have hfound := List.find?_some h
    exact ⟨List.mem_of_find?_eq_some h, (Bool.and_eq_true_iff.mp hfound).2⟩

theorem identifier_mnemonic : ∀ i ∈ all, i.mnemonic.IsIdentifier := by
  decide +kernel

/-- A mnemonic stands for its instruction, and is no directive. -/
theorem ofMnemonic_mnemonic :
    ∀ i ∈ all, ofMnemonic? i.mnemonic = some i ∧ i.mnemonic ∉ Operation.directives := by
  decide +kernel

/-- The bits of an opcode that carry an operand are 0, and it is a byte with every operand. -/
theorem opcode_mod_field : ∀ i ∈ all, i.opcode < 256 ∧
    ∀ values ∈ i.operand.field, i.opcode % values = 0 ∧ i.opcode + values ≤ 256 := by
  decide +kernel

variable {b : Nat} {i : Instruction}

/-- Without a field, the opcode byte is the opcode. -/
theorem encode_of_field_none (h : i.operand.field = none) (v : Int) : i.encode v = i.opcode := by
  unfold encode
  rw [h]

/-- With a field, the opcode byte is the opcode and the low bits of the operand. -/
theorem encode_of_field_some {values : Nat} (h : i.operand.field = some values) (v : Int) :
    (i.encode v : Int) = i.opcode + v % values := by
  have hpos : 0 < values := by
    cases hkind : i.operand <;> rw [hkind] at h <;> cases h <;> decide
  have hnonneg := Int.emod_nonneg v (by omega : (values : Int) ≠ 0)
  unfold encode
  rw [h]
  dsimp only
  omega

/-- An opcode byte is the opcode of its instruction and the operand that it carries. -/
theorem opcode_add_decode (h : ofOpcode? b = some i) {values : Nat}
    (hfield : i.operand.field = some values) :
    i.opcode + i.decode b = b ∧ i.operand.least ≤ i.decode b ∧ i.decode b < values := by
  obtain ⟨hmem, hcovers⟩ := mem_of_ofOpcode h
  obtain ⟨_, hopcode⟩ := opcode_mod_field i hmem
  obtain ⟨hmod, _⟩ := hopcode values hfield
  have hdecode : i.decode b = b % values := by
    unfold decode
    rw [hfield]
    show ((b : Int) % (values : Int)).toNat = _
    omega
  unfold covers at hcovers
  rw [hfield] at hcovers
  simp only [Bool.and_eq_true, decide_eq_true_eq] at hcovers
  rw [hdecode]
  -- `b` lies between two multiples of `values`
  obtain ⟨q, hq⟩ := Nat.dvd_of_mod_eq_zero hmod
  have hsub : b % values = b - i.opcode := by
    have hb : b = (b - i.opcode) + values * q := by omega
    rw [hb, Nat.add_mul_mod_self_left, Nat.mod_eq_of_lt (by omega), ← hb]
  omega

theorem opcode_of_field_none (h : ofOpcode? b = some i) (hfield : i.operand.field = none) :
    i.opcode = b := by
  have hcovers := (mem_of_ofOpcode h).2
  unfold covers at hcovers
  rw [hfield] at hcovers
  exact beq_iff_eq.mp hcovers

end Instruction

@[simp] theorem byte_natCast (n : Nat) : byte n = UInt8.ofNat n := by
  have hlow : (lowByte n).toNat = n % 0x100 := by
    unfold lowByte
    omega
  unfold byte
  rw [hlow]
  exact UInt8.toNat_inj.mp (Nat.mod_mod n 0x100)

@[simp] theorem byte_toNat (b : UInt8) : byte (b.toNat : Nat) = b := by
  rw [byte_natCast, UInt8.ofNat_toNat]

/-! ### One instruction -/

namespace Disassembled

/-- The data hold the whole instruction. -/
def IsComplete (d : Disassembled) : Prop := d.operandText ≠ "???".toList

instance (d : Disassembled) : Decidable d.IsComplete := inferInstanceAs (Decidable (_ ≠ _))

/-- **What can be found**: a byte that starts no instruction, an instruction that the data cut off,
or an instruction with all its operand bytes. -/
theorem decode_cases (names : AddressNames) (address : Int) (opcode : UInt8) (rest : List UInt8) :
    (Instruction.ofOpcode? opcode.toNat = none ∧
      decode names address opcode rest = dataByte address opcode) ∨
    (∃ i, Instruction.ofOpcode? opcode.toNat = some i ∧ rest.length + 1 < i.size ∧
      decode names address opcode rest = incomplete i address opcode rest) ∨
    (∃ i operands, Instruction.ofOpcode? opcode.toNat = some i ∧ operands.length + 1 = i.size ∧
      operands = rest.take (i.size - 1) ∧
      decode names address opcode rest = complete names i address opcode operands) := by
  unfold decode
  cases hfound : Instruction.ofOpcode? opcode.toNat with
  | none => exact Or.inl ⟨rfl, rfl⟩
  | some i =>
    by_cases hshort : rest.length + 1 < i.size
    · exact Or.inr (Or.inl ⟨i, rfl, hshort, if_pos hshort⟩)
    · have hsize : 1 ≤ i.size := by
        unfold Instruction.size OperandKind.size
        split <;> decide
      refine Or.inr (Or.inr ⟨i, _, rfl, ?_, rfl, if_neg hshort⟩)
      rw [List.length_take]
      omega

/-- The operand of the statement that is printed for an instruction. -/
def argument (d : Disassembled) : Operand Argument :=
  match d.kind, d.operand with
  | .none, _ => .read .none
  | .register, some _ | .nonzeroRegister, some _ => .read (.register (.name d.operandText))
  | .device, some n => .read (.register (.value n.toNat))
  | _, some n => .read (.expression (.ofNat n.toNat))
  | _, none => .broken ⟨none, .missingExpression⟩

/-- What the statement says that is printed for an instruction. -/
def operation (d : Disassembled) : Operation :=
  match Instruction.ofOpcode? d.opcode.toNat with
  | none => .data ⟨[.expression (.ofNat d.opcode.toNat)], none⟩
  | some i => .instruction i d.argument {}

end Disassembled

/-! ### Reading operands -/

/-- The text can be printed as an operand of the kind, and is read back as it was meant. -/
structure Argument.Legible (kind : OperandKind) (text : Text) (operand : Operand Argument) :
    Prop where
  /-- It stands behind the space. -/
  begins : Shape.BeginsOperands text
  /-- It is printed source text. -/
  row : text.IsRow
  /-- It is read as it was meant. -/
  read : (Argument.read kind text).1 = operand
  /-- Nothing is left of it, unless it is not well formed. -/
  rest : (∃ fault, operand = .broken fault) ∨ (Argument.read kind text).2 = []

namespace Argument

theorem legible_of_read {kind : OperandKind} {text : Text} {operand : Operand Argument}
    (h : Shape.BeginsOperands text ∧ text.IsRow ∧ read kind text = (operand, [])) :
    Legible kind text operand :=
  ⟨h.1, h.2.1, by rw [h.2.2], Or.inr (by rw [h.2.2])⟩

/-- The name of a register is read back as a name. -/
theorem legible_register {n : Nat} (hn : n < 16) {kind : OperandKind}
    (hkind : kind = .register ∨ kind = .nonzeroRegister) :
    Legible kind ("R".toList ++ Numeral.hexDigits n)
      (.read (.register (.name ("R".toList ++ Numeral.hexDigits n)))) := by
  have hall : ∀ n < 16, ∀ kind ∈ [OperandKind.register, .nonzeroRegister],
      Shape.BeginsOperands ("R".toList ++ Numeral.hexDigits n) ∧
        Text.IsRow ("R".toList ++ Numeral.hexDigits n) ∧
        read kind ("R".toList ++ Numeral.hexDigits n)
          = (.read (.register (.name ("R".toList ++ Numeral.hexDigits n))), []) := by
    decide +kernel
  exact legible_of_read (hall n hn kind (by rcases hkind with rfl | rfl <;> decide))

/-- The number of a device is read back as a number. -/
theorem legible_device {n : Nat} (hn : n < 8) :
    Legible .device (Numeral.decimal n) (.read (.register (.value n))) := by
  have hall : ∀ n < 8, Shape.BeginsOperands (Numeral.decimal (n : Nat)) ∧
      Text.IsRow (Numeral.decimal n) ∧
      read .device (Numeral.decimal n) = (.read (.register (.value n)), []) := by
    decide +kernel
  exact legible_of_read (hall n hn)

/-- A hexadecimal operand is read back as a constant, in one byte or two. -/
theorem legible_hex {kind : OperandKind}
    (hkind : kind = .immediate ∨ kind = .shortAddress ∨ kind = .longAddress) {width : Nat}
    (hwidth : width ≤ 4) {v : Int} (h : 0 ≤ v) (h' : v < 0x10000) :
    Legible kind ("#".toList ++ Numeral.hex width v) (.read (.expression (.ofNat v.toNat))) := by
  obtain ⟨n, rfl⟩ := Int.eq_ofNat_of_zero_le h
  obtain ⟨_, hdigits, _⟩ := Numeral.number_hex hwidth (n := n) (by omega)
  have hexpr : Expr.read ("#".toList ++ Numeral.hex width n) = (.ok (.ofNat n), []) :=
    Expr.read_hex hwidth (by omega)
  have hread : readExpression ("#".toList ++ Numeral.hex width n)
      = (.read (.expression (.ofNat n)), []) := by
    unfold readExpression
    rw [hexpr]
  refine legible_of_read ⟨?_, ?_, ?_⟩
  · intro c hc
    obtain rfl := Option.some.inj hc
    decide
  · intro c hc
    rcases List.mem_cons.mp hc with rfl | hc
    · rfl
    · exact Text.isRow_of_isName
        (fun d hd => Numeral.isNameChar_of_isHexDigit (hdigits d hd)) c hc
  · rcases hkind with rfl | rfl | rfl <;> exact hread

/-- What is printed for an operand that is not there cannot be read. -/
theorem legible_missing {kind : OperandKind} (hkind : 1 < kind.size) :
    Legible kind "???".toList (.broken ⟨Option.none, .missingExpression⟩) := by
  refine ⟨by decide, by decide, ?_, Or.inl ⟨_, rfl⟩⟩
  revert hkind
  cases kind <;> decide +kernel

end Argument

/-- A mnemonic is read as its instruction. -/
theorem Operation.read_mnemonic {i : Instruction} (hi : i ∈ Instruction.all) (text : Text) :
    Operation.read i.mnemonic text = readInstruction i text := by
  obtain ⟨hmnemonic, hdirective⟩ := Instruction.ofMnemonic_mnemonic i hi
  simp only [directives, List.map_cons, List.map_nil, List.mem_cons, not_or] at hdirective
  obtain ⟨hdc, hend, horg, hpage, _⟩ := hdirective
  unfold Operation.read
  rw [if_neg hdc, if_neg horg, if_neg hpage, if_neg hend, hmnemonic]

/-- A mnemonic and its operand are read as the instruction with that operand. -/
theorem Operation.read_instruction {i : Instruction} (hi : i ∈ Instruction.all) {text : Text}
    {operand : Operand Argument} (h : Argument.Legible i.operand text operand) :
    Operation.read i.mnemonic text = .instruction i operand {} := by
  rw [read_mnemonic hi]
  obtain ⟨_, _, rfl, hrest⟩ := h
  unfold readInstruction
  cases hargument : Argument.read i.operand text with
  | mk operand rest =>
    rw [hargument] at hrest
    -- behind a fault nothing is read, and behind a good operand nothing is left
    rcases hrest with ⟨fault, hfault⟩ | rfl
    · obtain rfl : operand = .broken fault := hfault
      rfl
    · cases operand <;> rfl

namespace Disassembled

/-- Operand bytes with the operand that they give and its text: nothing, the number of a register
or device that the opcode carries, or a number of one or two bytes. -/
inductive Carries (i : Instruction) (address : Int) (opcode : UInt8) :
    List UInt8 → Option Int → Text → Prop
  | none (hkind : i.operand = .none) : Carries i address opcode [] none []
  | register (hkind : i.operand = .register ∨ i.operand = .nonzeroRegister) :
    Carries i address opcode [] (some (i.decode opcode.toNat : Nat))
      ("R".toList ++ Numeral.hexDigits (i.decode opcode.toNat))
  | device (hkind : i.operand = .device) :
    Carries i address opcode [] (some (i.decode opcode.toNat : Nat))
      (Numeral.decimal (i.decode opcode.toNat))
  | immediate (hkind : i.operand = .immediate) (b : UInt8) :
    Carries i address opcode [b] (some (b.toNat : Nat)) ("#".toList ++ Numeral.hex 2 b.toNat)
  | shortAddress (hkind : i.operand = .shortAddress) (low : UInt8) :
    Carries i address opcode [low] (some (highByte (address + 1) * 0x100 + low.toNat))
      ("#".toList ++ Numeral.hex 4 (highByte (address + 1) * 0x100 + low.toNat))
  | longAddress (hkind : i.operand = .longAddress) (high low : UInt8) :
    Carries i address opcode [high, low] (some ((high.toNat : Int) * 0x100 + low.toNat))
      ("#".toList ++ Numeral.hex 4 (high.toNat * 0x100 + low.toNat))

/-- The instruction is a byte of data, or has all its operand bytes. -/
inductive Whole : Disassembled → Prop
  | data (address : Int) (opcode : UInt8) (h : Instruction.ofOpcode? opcode.toNat = none) :
    Whole (dataByte address opcode)
  | instruction (i : Instruction) (address : Int) (opcode : UInt8) (operands : List UInt8)
    (operand : Option Int) (text comment : Text)
    (h : Instruction.ofOpcode? opcode.toNat = some i) (hlength : operands.length + 1 = i.size)
    (hcarries : Carries i address opcode operands operand text) :
    Whole ⟨address, opcode, i.mnemonic, i.operand, operand, text, opcode :: operands, i.size,
      comment⟩

/-- An instruction that has all its operand bytes is whole. -/
theorem whole_complete {names : AddressNames} {i : Instruction} {address : Int} {opcode : UInt8}
    {operands : List UInt8} (h : Instruction.ofOpcode? opcode.toNat = some i)
    (hlength : operands.length + 1 = i.size) :
    (complete names i address opcode operands).Whole := by
  -- one case for each kind of operand: the kind decides how many bytes there are
  have hview : ∃ operand text comment,
      operandOf names i address opcode operands = (operand, text, comment) ∧
      Carries i address opcode operands operand text := by
    have hlength := hlength
    unfold Instruction.size at hlength
    unfold operandOf
    cases hkind : i.operand with
    | none =>
      rw [hkind] at hlength
      obtain rfl := List.length_eq_zero_iff.mp (Nat.succ.inj hlength)
      exact ⟨_, _, _, rfl, .none hkind⟩
    | register =>
      rw [hkind] at hlength
      obtain rfl := List.length_eq_zero_iff.mp (Nat.succ.inj hlength)
      exact ⟨_, _, _, rfl, .register (Or.inl hkind)⟩
    | nonzeroRegister =>
      rw [hkind] at hlength
      obtain rfl := List.length_eq_zero_iff.mp (Nat.succ.inj hlength)
      exact ⟨_, _, _, rfl, .register (Or.inr hkind)⟩
    | device =>
      rw [hkind] at hlength
      obtain rfl := List.length_eq_zero_iff.mp (Nat.succ.inj hlength)
      exact ⟨_, _, _, rfl, .device hkind⟩
    | immediate =>
      rw [hkind] at hlength
      obtain ⟨b, rfl⟩ := List.length_eq_one_iff.mp (Nat.succ.inj hlength)
      exact ⟨_, _, _, rfl, .immediate hkind b⟩
    | shortAddress =>
      rw [hkind] at hlength
      obtain ⟨low, rfl⟩ := List.length_eq_one_iff.mp (Nat.succ.inj hlength)
      exact ⟨_, _, _, rfl, .shortAddress hkind low⟩
    | longAddress =>
      rw [hkind] at hlength
      obtain ⟨high, low, rfl⟩ := List.length_eq_two.mp (Nat.succ.inj hlength)
      exact ⟨_, _, _, rfl, .longAddress hkind high low⟩
  obtain ⟨operand, text, comment, hoperand, hcarries⟩ := hview
  unfold complete
  rw [hoperand]
  exact .instruction i address opcode operands operand text comment h hlength hcarries

/-- A whole instruction has as many bytes as its size says. -/
theorem Whole.length_raw {d : Disassembled} (h : d.Whole) : d.raw.length = d.size := by
  cases h with
  | data => rfl
  | instruction i _ _ operands _ _ _ _ hlength => exact hlength

theorem Whole.raw_pos {d : Disassembled} (h : d.Whole) : 0 < d.raw.length := by
  cases h <;> exact Nat.succ_pos _

/-- A register is printed as a name. -/
theorem Whole.isName_operandText {d : Disassembled} (h : d.Whole)
    (hkind : d.kind = .register ∨ d.kind = .nonzeroRegister) : d.operandText.IsName := by
  cases h with
  | data => rcases hkind with hkind | hkind <;> cases hkind
  | instruction i address opcode operands operand text comment h hlength hcarries =>
    have hkind : i.operand = .register ∨ i.operand = .nonzeroRegister := hkind
    cases hcarries with
    | register =>
      intro c hc
      rcases List.mem_cons.mp hc with rfl | hc
      · decide
      · exact Numeral.isNameChar_of_isHexDigit ((Numeral.number_hexDigits _).1 c hc)
    | none h | device h | immediate h | shortAddress h | longAddress h =>
      rw [h] at hkind
      rcases hkind with hkind | hkind <;> cases hkind

/-- The operand of a whole instruction can be printed and read back. -/
theorem Carries.legible {i : Instruction} {address : Int} {opcode : UInt8}
    {operands : List UInt8} {operand : Option Int} {text comment : Text}
    (hcarries : Carries i address opcode operands operand text)
    (h : Instruction.ofOpcode? opcode.toNat = some i) :
    Argument.Legible i.operand text
      (argument ⟨address, opcode, i.mnemonic, i.operand, operand, text, opcode :: operands, i.size,
        comment⟩) := by
  unfold argument
  cases hcarries with
  | none hkind =>
    rw [hkind]
    exact Argument.legible_of_read ⟨by decide, by decide, rfl⟩
  | register hkind =>
    -- four bits of the opcode are the register, and three are the device
    have hlt : i.decode opcode.toNat < 16 := by
      refine (Instruction.opcode_add_decode h ?_).2.2
      rcases hkind with hkind | hkind <;> rw [hkind] <;> rfl
    have hlegible := Argument.legible_register hlt hkind
    rcases hkind with hkind | hkind <;> rw [hkind] at hlegible ⊢ <;> exact hlegible
  | device hkind =>
    have hlt : i.decode opcode.toNat < 8 := by
      refine (Instruction.opcode_add_decode h ?_).2.2
      rw [hkind]
      rfl
    rw [hkind]
    exact Argument.legible_device hlt
  | immediate hkind b =>
    have hb := b.toNat_lt
    rw [hkind]
    exact Argument.legible_hex (Or.inl rfl) (by decide) (by omega) (by omega)
  | shortAddress hkind low =>
    have hlow := low.toNat_lt
    have hpage : 0 ≤ highByte (address + 1) ∧ highByte (address + 1) < 256 := by
      unfold highByte
      omega
    rw [hkind]
    exact Argument.legible_hex (Or.inr (Or.inl rfl)) (by decide) (by omega) (by omega)
  | longAddress hkind high low =>
    have hhigh := high.toNat_lt
    have hlow := low.toNat_lt
    rw [hkind]
    exact Argument.legible_hex (Or.inr (Or.inr rfl)) (by decide) (by omega) (by omega)

/-- The statement that is printed for the instruction can be read back. -/
structure Printable (d : Disassembled) : Prop where
  /-- It starts with a name. -/
  mnemonic : d.mnemonic.IsIdentifier
  /-- The operand stands behind a space. -/
  begins : Shape.BeginsOperands d.operandText
  /-- The operand is printed source text. -/
  row : d.operandText.IsRow
  /-- The statement says what the instruction is. -/
  read : Operation.read d.mnemonic d.operandText = d.operation

/-- An instruction is printable if its operand is legible. -/
theorem printable_of_legible {d : Disassembled} {i : Instruction}
    (h : Instruction.ofOpcode? d.opcode.toNat = some i) (hmnemonic : d.mnemonic = i.mnemonic)
    (hlegible : Argument.Legible i.operand d.operandText d.argument) : d.Printable := by
  have hmem := (Instruction.mem_of_ofOpcode h).1
  refine ⟨?_, hlegible.begins, hlegible.row, ?_⟩
  · rw [hmnemonic]
    exact Instruction.identifier_mnemonic i hmem
  · rw [hmnemonic, Operation.read_instruction hmem hlegible]
    unfold operation
    rw [h]

/-- A byte that starts no instruction is printed as `DC` and read back. -/
theorem printable_dataByte (address : Int) {opcode : UInt8}
    (h : Instruction.ofOpcode? opcode.toNat = none) : (dataByte address opcode).Printable := by
  have hlt := opcode.toNat_lt
  have hlegible : Argument.Legible .immediate ("#".toList ++ Numeral.hex 2 opcode.toNat) _ :=
    Argument.legible_hex (Or.inl rfl) (by decide) (v := opcode.toNat) (by omega) (by omega)
  have hexpr : Expr.read ('#' :: Numeral.hex 2 opcode.toNat) = (.ok (.ofNat opcode.toNat), []) :=
    Expr.read_hex (by decide) (by omega)
  have hmnemonic : Text.IsIdentifier "DC".toList := by decide
  refine ⟨hmnemonic, hlegible.begins, hlegible.row, ?_⟩
  have hitem : Item.read ('#' :: Numeral.hex 2 opcode.toNat)
      = (.ok (.expression (.ofNat opcode.toNat)), []) := by
    obtain ⟨hword, hdigits, _⟩ :=
      Numeral.number_hex (by decide : 2 ≤ 4) (n := opcode.toNat) (by omega)
    unfold Item.read
    rw [Token.next_hex hword hdigits]
    show Item.readExpression _ = _
    unfold Item.readExpression
    rw [hexpr]
  have hlist : DataList.read ('#' :: Numeral.hex 2 opcode.toNat)
      = ⟨[.expression (.ofNat opcode.toNat)], none⟩ := by
    have hitem : Item.read (Text.skipSpaces ('#' :: Numeral.hex 2 opcode.toNat)) = _ := hitem
    rw [DataList.read]
    split
    · rename_i hread
      rw [hitem] at hread
      cases hread
    · rename_i hread
      obtain ⟨hok, rfl⟩ := Prod.mk.inj (hitem.symm.trans hread)
      obtain rfl := Except.ok.inj hok
      rfl
  unfold operation
  rw [show Instruction.ofOpcode? (dataByte address opcode).opcode.toNat = none from h]
  exact congrArg Operation.data hlist

/-- A whole instruction is printed and read back. -/
theorem Whole.printable {d : Disassembled} (h : d.Whole) : d.Printable := by
  cases h with
  | data address opcode h => exact printable_dataByte address h
  | instruction i address opcode operands operand text comment h hlength hcarries =>
    exact printable_of_legible h rfl (hcarries.legible h)

theorem argument_incomplete {i : Instruction} {address : Int} {opcode : UInt8}
    {rest : List UInt8} (hshort : rest.length + 1 < i.size) :
    (incomplete i address opcode rest).argument = .broken ⟨none, .missingExpression⟩ := by
  have hsize : 1 < i.operand.size := by
    unfold Instruction.size at hshort
    omega
  show argument ⟨_, _, _, i.operand, none, _, _, _, _⟩ = _
  revert hsize
  unfold argument
  cases i.operand <;> first | exact fun _ => rfl | exact nofun

/-- **An instruction that is cut off is printed with `???`**, which is read as a missing operand. -/
theorem printable_incomplete {i : Instruction} {address : Int} {opcode : UInt8}
    {rest : List UInt8} (h : Instruction.ofOpcode? opcode.toNat = some i)
    (hshort : rest.length + 1 < i.size) : (incomplete i address opcode rest).Printable := by
  have hsize : 1 < i.operand.size := by
    unfold Instruction.size at hshort
    omega
  refine printable_of_legible h rfl ?_
  rw [argument_incomplete hshort]
  exact Argument.legible_missing hsize

/-- **Whatever is found can be printed and read back.** -/
theorem printable_decode (names : AddressNames) (address : Int) (opcode : UInt8)
    (rest : List UInt8) : (decode names address opcode rest).Printable := by
  rcases decode_cases names address opcode rest with
    ⟨h, hdecode⟩ | ⟨i, h, hshort, hdecode⟩ | ⟨i, operands, h, hlength, _, hdecode⟩ <;> rw [hdecode]
  · exact printable_dataByte address h
  · exact printable_incomplete h hshort
  · exact (whole_complete h hlength).printable

/-- No operand of a whole instruction is printed as `???`. -/
theorem Whole.isComplete {d : Disassembled} (h : d.Whole) : d.IsComplete := by
  have hhex : ∀ t : Text, "#".toList ++ t ≠ "???".toList :=
    fun t heq => absurd (List.cons.inj heq).1 (by decide)
  cases h with
  | data address opcode h => exact hhex _
  | instruction i address opcode operands operand text comment h hlength hcarries =>
    show text ≠ "???".toList
    cases hcarries with
    | none hkind => exact nofun
    | register hkind => exact fun heq => absurd (List.cons.inj heq).1 (by decide)
    | device hkind =>
      have hlt : i.decode opcode.toNat < 8 := by
        refine (Instruction.opcode_add_decode h ?_).2.2
        rw [hkind]
        rfl
      have hall : ∀ n < 8, Numeral.decimal (n : Nat) ≠ "???".toList := by decide +kernel
      exact hall _ hlt
    | immediate hkind b => exact hhex _
    | shortAddress hkind low => exact hhex _
    | longAddress hkind high low => exact hhex _

/-- What is not printed with `???` is whole. -/
theorem whole_decode {names : AddressNames} {address : Int} {opcode : UInt8} {rest : List UInt8}
    (h : (decode names address opcode rest).IsComplete) :
    (decode names address opcode rest).Whole := by
  rcases decode_cases names address opcode rest with
    ⟨hfound, hdecode⟩ | ⟨i, _, _, hdecode⟩ | ⟨i, operands, hfound, hlength, _, hdecode⟩ <;>
    rw [hdecode] at h ⊢
  · exact .data address opcode hfound
  · exact absurd rfl h
  · exact whole_complete hfound hlength

/-! ### The code of a printed instruction -/

/-- No symbol gives the register of the instruction another number. -/
def Intact (t : SymbolTable) (d : Disassembled) : Prop :=
  d.kind = .register ∨ d.kind = .nonzeroRegister →
    ∀ symbol, t.lookup d.operandText = some symbol →
      ∃ v, symbol.value = some v ∧ d.operand = some (v % 16)

/-- A printed byte of data is assembled to this byte. -/
theorem resolve_data (c : Context) (label : Option Text) (b : UInt8) :
    (⟨label, .data ⟨[.expression (.ofNat b.toNat)], none⟩⟩ : Shape).resolve c
      = { label, data := [b], size := 1, code := [b], status := .data } := by
  have hb := b.toNat_lt
  have hbytes : Item.bytes c (.expression (.ofNat b.toNat)) = .ok [b] := by
    have hsmall : ¬ b.toNat > 0xFF := by omega
    show Except.ok (Value.ofNat b.toNat).bytes = _
    simp [Value.ofNat, Value.bytes, Token.width, hsmall]
  have hitems : Reading.addItems c [.expression (.ofNat b.toNat)] { label }
      = (Reading.append { label } [b], none) := by
    unfold Reading.addItems
    rw [hbytes]
    rfl
  show Reading.settle .data (Reading.addData c ⟨[.expression (.ofNat b.toNat)], none⟩ { label }) = _
  unfold Reading.addData
  rw [hitems]
  rfl

/-- An instruction without data behind it is closed with what its operand gave. -/
theorem resolve_instruction (c : Context) (label : Option Text) (i : Instruction)
    (operand : Operand Argument) :
    (⟨label, .instruction i operand {}⟩ : Shape).resolve c
      = Reading.settle .instruction (Reading.addOperand c i.operand operand
          { label, instruction := some i, size := i.size }) := by
  unfold Shape.resolve Reading.addInstruction
  dsimp only
  cases hoperand : Reading.addOperand c i.operand operand
    { label, instruction := some i, size := i.size } with
  | mk r fault => cases fault <;> rfl

section Meaning

variable {d : Disassembled} (hwhole : d.Whole) (c : Context) (label : Option Text)

include hwhole

/-- **A printed instruction takes the room of the instruction**, wherever it stands. -/
theorem size_resolve : ((⟨label, d.operation⟩ : Shape).resolve c).size = d.size := by
  cases hwhole with
  | data address opcode h =>
    simp only [operation, dataByte, h]
    exact congrArg Reading.size (resolve_data c label opcode)
  | instruction i address opcode operands operand text comment h hlength hcarries =>
    simp only [operation, h]
    rw [resolve_instruction, Reading.size_settle]
    unfold argument
    have hregister : ∀ term, (Reading.addRegister c i.operand term
        { label, instruction := some i, size := i.size }).1.size = i.size := by
      intro term
      unfold Reading.addRegister
      split
      · rfl
      · split_ifs <;> rfl
    cases hcarries with
    | none hkind => rw [hkind]; rfl
    | register hkind =>
      rcases hkind with hkind | hkind <;> rw [hkind] at hregister ⊢ <;> exact hregister _
    | device hkind => rw [hkind] at hregister ⊢; exact hregister _
    | immediate hkind b => rw [hkind]; rfl
    | shortAddress hkind low =>
      rw [hkind]
      show (Reading.addExpression c .shortAddress (.ofNat _) _).1.size = i.size
      unfold Reading.addExpression
      show (if _ then _ else _ : Progress).1.size = _
      split_ifs <;> rfl
    | longAddress hkind high low => rw [hkind]; rfl

end Meaning

/-- An opcode byte without an operand in it is the opcode, whatever the operand. -/
theorem ofNat_encode_of_field_none {i : Instruction} {opcode : UInt8}
    (h : Instruction.ofOpcode? opcode.toNat = some i) (hfield : i.operand.field = none) (v : Int) :
    UInt8.ofNat (i.encode v) = opcode := by
  rw [Instruction.encode_of_field_none hfield, Instruction.opcode_of_field_none h hfield]
  exact UInt8.ofNat_toNat

/-- An opcode byte with an operand in it is the opcode with that operand and no other. -/
theorem ofNat_encode_eq_iff {i : Instruction} {opcode : UInt8}
    (h : Instruction.ofOpcode? opcode.toNat = some i) {values : Nat}
    (hfield : i.operand.field = some values) {v : Int} (hv : 0 ≤ v) (hv' : v < values) :
    UInt8.ofNat (i.encode v) = opcode ↔ v = i.decode opcode.toNat := by
  obtain ⟨hsum, _, hlt⟩ := Instruction.opcode_add_decode h hfield
  obtain ⟨_, hfits⟩ := Instruction.opcode_mod_field i (Instruction.mem_of_ofOpcode h).1
  have hfits := (hfits values hfield).2
  have hencode : i.encode v = i.opcode + v.toNat := by
    unfold Instruction.encode
    rw [hfield]
    show i.opcode + (v % (values : Int)).toNat = _
    rw [Int.emod_eq_of_lt hv hv']
  have hmod : (UInt8.ofNat (i.encode v)).toNat = i.encode v := by
    rw [UInt8.toNat_ofNat', Nat.mod_eq_of_lt (by omega)]
  rw [← UInt8.toNat_inj, hmod, hencode]
  omega

/-- An instruction without an error has its opcode byte, its operand bytes and its data as code. -/
theorem coded_settle {p : Progress} {r : Reading} {i : Instruction} {raw : List UInt8}
    (hp : p = (r, none)) (hi : r.instruction = some i)
    (hcode : UInt8.ofNat (i.encode r.value) :: r.operandBytes ++ r.data = raw) :
    (Reading.settle .instruction p).status.error? = none ∧
      (Reading.settle .instruction p).code = raw := by
  rw [hp]
  refine ⟨rfl, ?_⟩
  show Reading.encode { r with status := .instruction } = raw
  unfold Reading.encode
  rw [hi]
  exact hcode

/-- A short branch reaches the address that is printed for it, whose low byte is its operand. -/
theorem shortAddress_spec (address : Int) (low : UInt8) :
    samePage address (highByte (address + 1) * 0x100 + low.toNat) = true ∧
      byte (highByte (address + 1) * 0x100 + low.toNat) = low := by
  have hlow := low.toNat_lt
  constructor
  · unfold samePage highByte
    rw [beq_iff_eq]
    omega
  · have hmod : (highByte (address + 1) * 0x100 + low.toNat) % 0x100 = (low.toNat : Nat) := by
      omega
    unfold byte lowByte
    rw [hmod]
    exact UInt8.ofNat_toNat

/-- The two bytes of an address are those that it was made of. -/
theorem wordBytes_spec (high low : UInt8) :
    wordBytes ((high.toNat : Int) * 0x100 + low.toNat) = [high, low] := by
  have hhigh := high.toNat_lt
  have hlow := low.toNat_lt
  have h₁ : highByte ((high.toNat : Int) * 0x100 + low.toNat) = (high.toNat : Nat) := by
    unfold highByte
    omega
  have h₂ : lowByte ((high.toNat : Int) * 0x100 + low.toNat) = (low.toNat : Nat) := by
    unfold lowByte
    omega
  unfold wordBytes
  rw [h₁, h₂, byte_toNat, byte_toNat]

theorem addExpression_shortAddress {c : Context} {n : Nat} (h : samePage c.pc n = true)
    (r : Reading) :
    Reading.addExpression c .shortAddress (.ofNat n) r
      = ({ r.setValue (.ofNat n) with operandSize := 1 }, none) := by
  unfold Reading.addExpression
  show (if c.pass.isFinal && !samePage c.pc n then _ else _) = _
  rw [h, Bool.not_true, Bool.and_false]
  rfl

/-- A known register is taken, unless it is register 0 where that is refused. -/
theorem addRegister_of_eval {c : Context} {kind : OperandKind} {term : RegisterTerm} {w : Int}
    (h : term.eval c (Reading.registerClass kind) = .ok { value := w }) (r : Reading) :
    Reading.addRegister c kind term r
      = (r.setValue { value := w },
          if kind = .nonzeroRegister ∧ w = 0 then some (.ofKind .invalidRegister) else none) := by
  unfold Reading.addRegister
  rw [h]
  dsimp only
  split_ifs with hall hboth hboth
  · rfl
  · exact absurd ⟨hall.1, hall.2.1⟩ hboth
  · exact absurd ⟨hboth.1, hboth.2, rfl⟩ hall
  · rfl

/-- The name of a register that is no symbol is its number. -/
theorem eval_register {c : Context} {n : Nat} (hn : n < 16)
    (h : c.symbols.lookup ("R".toList ++ Numeral.hexDigits n) = none) :
    (RegisterTerm.name ("R".toList ++ Numeral.hexDigits n)).eval c .register
      = .ok { value := n } := by
  obtain ⟨hdigit, hvalue⟩ := Numeral.hexDigit_of_lt hn
  have hname : Text.IsName [n.digitChar.toUpper] := by
    intro d hd
    rw [List.mem_singleton.mp hd]
    exact Numeral.isNameChar_of_isHexDigit hdigit
  have hword : Token.isHexWord [n.digitChar.toUpper] = true := by
    simp [Token.isHexWord, Text.upper_of_isName hname, hdigit]
  rw [Numeral.hexDigits_of_lt hn] at h ⊢
  have h : c.symbols.lookup ['R', n.digitChar.toUpper] = none := h
  show RegisterTerm.eval c .register (.name ['R', n.digitChar.toUpper]) = _
  simp [RegisterTerm.eval, h, hword, Token.number, hvalue]

/-- **The register of a printed instruction is read back** exactly if no symbol gives it another
number. -/
theorem code_addRegister_iff {c : Context} (hfinal : c.pass.isFinal = true) {i : Instruction}
    {opcode : UInt8} (h : Instruction.ofOpcode? opcode.toNat = some i)
    (hkind : i.operand = .register ∨ i.operand = .nonzeroRegister) (label : Option Text) :
    let text := "R".toList ++ Numeral.hexDigits (i.decode opcode.toNat)
    let r := Reading.settle .instruction (Reading.addRegister c i.operand (.name text)
      { label, instruction := some i, size := i.size })
    (r.status.error? = none ∧ r.code = [opcode]) ↔
      ∀ symbol, c.symbols.lookup text = some symbol →
        ∃ v, symbol.value = some v ∧
          some ((i.decode opcode.toNat : Nat) : Int) = some (v % 16) := by
  intro text r
  have hfield : i.operand.field = some 16 := by
    rcases hkind with hkind | hkind <;> rw [hkind] <;> rfl
  have hclass : Reading.registerClass i.operand = .register := by
    rcases hkind with hkind | hkind <;> rw [hkind] <;> rfl
  obtain ⟨_, hleast, hlt⟩ := Instruction.opcode_add_decode h hfield
  -- with the number `w` for its register, the statement is right if `w` is the right number
  have hnumber : ∀ w : Int, 0 ≤ w → w < 16 →
      (RegisterTerm.name text).eval c .register = .ok { value := w } →
      ((r.status.error? = none ∧ r.code = [opcode]) ↔ w = (i.decode opcode.toNat : Nat)) := by
    intro w hw hw' heval
    rw [← hclass] at heval
    have hadd := addRegister_of_eval heval { label, instruction := some i, size := i.size }
    have hr : r = Reading.settle .instruction (Reading.addRegister c i.operand (.name text)
        { label, instruction := some i, size := i.size }) := rfl
    rw [hr, hadd]
    split_ifs with hzero
    · -- register 0 is refused where it would be another instruction, and is not what was decoded
      refine iff_of_false (fun hboth => nomatch hboth.1) fun heq => ?_
      rw [hzero.1] at hleast
      have : (1 : Nat) ≤ i.decode opcode.toNat := hleast
      omega
    · rw [← ofNat_encode_eq_iff h hfield hw hw']
      exact ⟨fun hboth => (List.cons.inj hboth.2).1, fun heq => ⟨rfl, congrArg (fun b => [b]) heq⟩⟩
  cases hsymbol : c.symbols.lookup text with
  | none =>
    -- the name of the register is not defined, so it stands for its number
    refine iff_of_true ?_ nofun
    exact (hnumber _ (by omega) (by omega) (eval_register hlt hsymbol)).mpr rfl
  | some symbol =>
    cases hvalue : symbol.value with
    | none =>
      -- a symbol without a value is an error in the final pass
      have heval : (RegisterTerm.name text).eval c (Reading.registerClass i.operand)
          = .error (.undefined text) := by
        rw [hclass]
        simp [RegisterTerm.eval, hsymbol, hvalue, Context.undefined, hfinal]
      refine iff_of_false ?_ fun hall => ?_
      · show ¬((Reading.settle .instruction (Reading.addRegister c i.operand _ _)).status.error?
          = none ∧ _)
        unfold Reading.addRegister
        rw [heval]
        exact fun hboth => nomatch hboth.1
      · obtain ⟨v, hv, _⟩ := hall symbol rfl
        rw [hvalue] at hv
        cases hv
    | some v =>
      -- a symbol stands in for the register, and its low bits count
      have heval : (RegisterTerm.name text).eval c .register = .ok { value := v % 16 } := by
        simp [RegisterTerm.eval, hsymbol, hvalue, RegisterClass.limit]
      rw [hnumber _ (by omega) (by omega) heval]
      constructor
      · rintro heq symbol' hsame
        obtain rfl := Option.some.inj hsame
        exact ⟨v, hvalue, congrArg some heq.symm⟩
      · intro hall
        obtain ⟨v', hv', heq⟩ := hall symbol rfl
        obtain rfl := Option.some.inj (hvalue.symm.trans hv')
        exact (Option.some.inj heq).symm

section Meaning

variable {d : Disassembled} (hwhole : d.Whole) {c : Context} (label : Option Text)
  (hpc : c.pc = d.address) (hfinal : c.pass.isFinal = true)

include hwhole hpc hfinal

/-- **At its own address a printed instruction has its own bytes as code**, exactly if no symbol
gives its register another number. -/
theorem code_resolve_iff :
    (((⟨label, d.operation⟩ : Shape).resolve c).status.error? = none ∧
      ((⟨label, d.operation⟩ : Shape).resolve c).code = d.raw) ↔ d.Intact c.symbols := by
  cases hwhole with
  | data address opcode h =>
    have hresolve := resolve_data c label opcode
    simp only [operation, dataByte, h]
    refine iff_of_true ⟨?_, ?_⟩ (by rintro (h | h) <;> cases h)
    · exact congrArg (fun r : Reading => r.status.error?) hresolve
    · exact congrArg Reading.code hresolve
  | instruction i address opcode operands operand text comment h hlength hcarries =>
    -- only the text of a register can be the name of a symbol
    have hintact : ∀ {t : SymbolTable} {d : Disassembled},
        ¬(d.kind = .register ∨ d.kind = .nonzeroRegister) → d.Intact t :=
      fun hkind hregister => absurd hregister hkind
    simp only [operation, h]
    rw [resolve_instruction]
    unfold argument
    cases hcarries with
    | none hkind =>
      have hbyte := ofNat_encode_of_field_none h (by rw [hkind]; rfl)
      refine iff_of_true (coded_settle (by rw [hkind]; rfl) rfl ?_) (hintact (by simp [hkind]))
      exact congrArg (fun b => [b]) (hbyte _)
    | register hkind =>
      have hiff := code_addRegister_iff hfinal h hkind label
      refine Iff.trans ?_ (hiff.trans ⟨fun hall _ => hall, fun hall => hall hkind⟩)
      rcases hkind with hkind | hkind <;> rw [hkind] <;> exact Iff.rfl
    | device hkind =>
      have hfield : i.operand.field = some 8 := by
        rw [hkind]
        rfl
      obtain ⟨_, _, hlt⟩ := Instruction.opcode_add_decode h hfield
      have heval : (RegisterTerm.value (i.decode opcode.toNat)).eval c
          (Reading.registerClass .device) = .ok { value := (i.decode opcode.toNat : Nat) } :=
        if_neg (by omega : ¬ i.decode opcode.toNat > 7)
      have hadd := addRegister_of_eval heval { label, instruction := some i, size := i.size }
      rw [if_neg fun hzero => nomatch hzero.1] at hadd
      have hbyte : UInt8.ofNat (i.encode (i.decode opcode.toNat : Nat)) = opcode :=
        (ofNat_encode_eq_iff h hfield (by omega) (by omega)).mpr rfl
      refine iff_of_true (coded_settle (by rw [hkind]; exact hadd) rfl ?_)
        (hintact (by simp [hkind]))
      exact congrArg (fun b => [b]) hbyte
    | immediate hkind b =>
      have hbyte := ofNat_encode_of_field_none h (by rw [hkind]; rfl)
      refine iff_of_true (coded_settle (by rw [hkind]; rfl) rfl ?_) (hintact (by simp [hkind]))
      show [UInt8.ofNat (i.encode _), byte (b.toNat : Nat)] = [opcode, b]
      rw [hbyte, byte_toNat]
    | shortAddress hkind low =>
      -- the page is that of the byte behind the opcode, where the branch was decoded and is
      -- assembled
      have hbyte := ofNat_encode_of_field_none h (by rw [hkind]; rfl)
      obtain ⟨hpage, hlow⟩ := shortAddress_spec address low
      have hnat : ((highByte (address + 1) * 0x100 + low.toNat).toNat : Int)
          = highByte (address + 1) * 0x100 + low.toNat := by
        unfold highByte
        omega
      rw [← hnat] at hpage hlow
      have hadd := addExpression_shortAddress (by rw [hpc]; exact hpage)
        { label, instruction := some i, size := i.size }
      refine iff_of_true (coded_settle (by rw [hkind]; exact hadd) rfl ?_)
        (hintact (by simp [hkind]))
      show [UInt8.ofNat (i.encode _), byte _] = [opcode, low]
      rw [hbyte]
      exact congrArg (fun b => [opcode, b]) hlow
    | longAddress hkind high low =>
      have hbyte := ofNat_encode_of_field_none h (by rw [hkind]; rfl)
      have hnat : (((high.toNat : Int) * 0x100 + low.toNat).toNat : Int)
          = (high.toNat : Int) * 0x100 + low.toNat := by
        omega
      refine iff_of_true (coded_settle (by rw [hkind]; rfl) rfl ?_) (hintact (by simp [hkind]))
      show UInt8.ofNat (i.encode _) :: wordBytes
        (((high.toNat : Int) * 0x100 + low.toNat).toNat : Nat) = [opcode, high, low]
      rw [hbyte, hnat, wordBytes_spec]

end Meaning

/-- The operand of an instruction that the data cut off is missing in its statement too. -/
theorem operation_decode_of_not_isComplete {names : AddressNames} {address : Int} {opcode : UInt8}
    {rest : List UInt8} (h : ¬(decode names address opcode rest).IsComplete) :
    ∃ i, (decode names address opcode rest).operation
      = .instruction i (.broken ⟨none, .missingExpression⟩) {} := by
  rcases decode_cases names address opcode rest with
    ⟨hfound, hdecode⟩ | ⟨i, hfound, hshort, hdecode⟩ |
    ⟨i, operands, hfound, hlength, _, hdecode⟩ <;>
    rw [hdecode] at h ⊢
  · exact absurd (Whole.data address opcode hfound).isComplete h
  · refine ⟨i, ?_⟩
    unfold operation
    dsimp only [incomplete]
    rw [hfound, ← argument_incomplete hshort]
    rfl
  · exact absurd (whole_complete hfound hlength).isComplete h

/-- The bytes of an instruction and what is left behind it are the data. -/
theorem raw_decode (names : AddressNames) (address : Int) (opcode : UInt8) (rest : List UInt8) :
    (decode names address opcode rest).raw
        ++ rest.drop ((decode names address opcode rest).size - 1) = opcode :: rest := by
  rcases decode_cases names address opcode rest with
    ⟨_, hdecode⟩ | ⟨i, _, _, hdecode⟩ | ⟨i, operands, hfound, hlength, htake, hdecode⟩ <;>
    rw [hdecode]
  · rfl
  · show opcode :: rest ++ rest.drop (rest.length + 1 - 1) = _
    simp
  · show opcode :: operands ++ rest.drop (i.size - 1) = _
    rw [htake, List.cons_append, List.take_append_drop]

/-- An instruction keeps the address where it was found. -/
@[simp] theorem address_decode (names : AddressNames) (address : Int) (opcode : UInt8)
    (rest : List UInt8) : (decode names address opcode rest).address = address := by
  rcases decode_cases names address opcode rest with
    ⟨_, hdecode⟩ | ⟨i, _, _, hdecode⟩ | ⟨i, operands, _, _, _, hdecode⟩ <;> rw [hdecode] <;> rfl

end Disassembled

/-! ### All instructions -/

namespace Disassembly

open Disassembled

variable {names : AddressNames}

/-- The first instruction is decoded, and the rest of the data disassembled behind it. -/
theorem run_cons (index offset : Nat) (address : Int) (opcode : UInt8) (rest : List UInt8) :
    run names {} index offset address (opcode :: rest)
      = decode names address opcode rest ::
        run names {} (index + 1) (offset + (decode names address opcode rest).size)
          (word (address + (decode names address opcode rest).size))
          (rest.drop ((decode names address opcode rest).size - 1)) := by
  rw [run]
  rfl

/-- **What holds of each cut holds of the disassembly.** -/
theorem disassemble_induction {P : Int → List UInt8 → List Disassembled → Prop}
    (hnil : ∀ address, P address [] [])
    (hcons : ∀ address opcode rest more,
      P (word (address + (decode names address opcode rest).size))
          (rest.drop ((decode names address opcode rest).size - 1)) more →
        P address (opcode :: rest) (decode names address opcode rest :: more))
    (address : Int) (data : List UInt8) : P address data (disassemble names {} address data) := by
  -- on the length of the data, since each cut leaves less of it
  have hrun : ∀ n index offset address (data : List UInt8), data.length ≤ n →
      P address data (run names {} index offset address data) := by
    intro n
    induction n with
    | zero =>
      intro index offset address data hlength
      obtain rfl := List.length_eq_zero_iff.mp (Nat.le_zero.mp hlength)
      rw [run]
      exact hnil address
    | succ n ih =>
      intro index offset address data hlength
      cases data with
      | nil =>
        rw [run]
        exact hnil address
      | cons opcode rest =>
        rw [run_cons]
        refine hcons address opcode rest _ (ih _ _ _ _ ?_)
        rw [List.length_drop]
        rw [List.length_cons] at hlength
        omega
  exact hrun data.length 0 0 address data (Nat.le_refl _)

/-- Every instruction stands behind the one before it. -/
def Consecutive : Int → List Disassembled → Prop
  | _, [] => True
  | address, d :: rest => d.address = address ∧ Consecutive (word (address + d.size)) rest

variable (address : Int) (data : List UInt8)

theorem forall_disassemble {P : Disassembled → Prop}
    (h : ∀ address opcode rest, P (decode names address opcode rest)) :
    ∀ d ∈ disassemble names {} address data, P d := by
  refine disassemble_induction (P := fun _ _ ds => ∀ d ∈ ds, P d) (fun _ _ hd => ?_) ?_ address data
  · exact absurd hd List.not_mem_nil
  · intro address opcode rest more ih d hd
    rcases List.mem_cons.mp hd with rfl | hd
    · exact h address opcode rest
    · exact ih d hd

section Member

variable {address data} {d : Disassembled} (hd : d ∈ disassemble names {} address data)

include hd

theorem printable_of_mem_disassemble : d.Printable :=
  forall_disassemble address data (Disassembled.printable_decode names) d hd

/-- Every instruction of a disassembly is whole, unless it is printed with `???`. -/
theorem whole_of_mem_disassemble : d.IsComplete → d.Whole :=
  forall_disassemble (P := fun d => d.IsComplete → d.Whole) address data
    (fun _ _ _ => Disassembled.whole_decode) d hd

/-- An instruction of a disassembly that is cut off is printed with its operand missing. -/
theorem operation_of_mem_disassemble :
    ¬d.IsComplete → ∃ i, d.operation = .instruction i (.broken ⟨none, .missingExpression⟩) {} :=
  forall_disassemble
    (P := fun d =>
      ¬d.IsComplete → ∃ i, d.operation = .instruction i (.broken ⟨none, .missingExpression⟩) {})
    address data (fun _ _ _ => Disassembled.operation_decode_of_not_isComplete) d hd

end Member

/-- **The bytes of the instructions are the data.** -/
theorem flatMap_raw_disassemble :
    (disassemble names {} address data).flatMap (·.raw) = data := by
  refine disassemble_induction (P := fun _ data ds => ds.flatMap (·.raw) = data) (fun _ => rfl) ?_
    address data
  intro address opcode rest more ih
  rw [List.flatMap_cons, ih, raw_decode]

/-- **The instructions follow each other.** -/
theorem consecutive_disassemble : Consecutive address (disassemble names {} address data) := by
  refine disassemble_induction (P := fun address _ ds => Consecutive address ds)
    (fun _ => trivial) ?_ address data
  intro address opcode rest more ih
  exact ⟨address_decode .., ih⟩

/-- **Only the last instruction can be cut off.** -/
theorem whole_dropLast_disassemble :
    ∀ d ∈ (disassemble names {} address data).dropLast, d.Whole := by
  have hall : (data = [] → disassemble names {} address data = []) ∧
      ∀ d ∈ (disassemble names {} address data).dropLast, d.Whole := by
    refine disassemble_induction
      (P := fun _ data ds => (data = [] → ds = []) ∧ ∀ d ∈ ds.dropLast, d.Whole)
      (fun _ => ⟨fun _ => rfl, fun _ hd => absurd hd List.not_mem_nil⟩) ?_ address data
    rintro address opcode rest more ⟨hempty, hwhole⟩
    refine ⟨nofun, fun d hd => ?_⟩
    cases more with
    | nil => exact absurd hd List.not_mem_nil
    | cons next more =>
      rcases List.mem_cons.mp hd with rfl | hd
      · rcases decode_cases names address opcode rest with
          ⟨hfound, hdecode⟩ | ⟨i, _, _, hdecode⟩ | ⟨i, operands, hfound, hlength, _, hdecode⟩ <;>
          rw [hdecode] at hempty ⊢
        · exact .data address opcode hfound
        · -- behind an instruction that is cut off there is nothing left
          have hrest : rest.drop ((incomplete i address opcode rest).size - 1) = [] := by
            show rest.drop (rest.length + 1 - 1) = []
            simp
          cases hempty hrest
        · exact whole_complete hfound hlength
      · exact hwhole d hd
  exact hall.2

end Disassembly

end Cosmac
