import Cosmac.Proofs.Decoding
import Cosmac.Proofs.Parts
import Cosmac.Proofs.Range

/-!
# What is encoded is decoded

The code of an instruction is an opcode byte, which may carry a register or a device, the bytes of
its operand, and data.  The decoder works with the same table, but from the bytes to the mnemonics,
and it has its own rule for the page of a branch.

* `Instruction.ofOpcode_encode`: read backwards, the table gives an instruction with the opcode and
  the kind of operand that the byte was made from;
* `Reading.placed_addOperand`: what the final pass has made sure of before an operand is encoded;
* `Disassembled.operand_complete`: this is enough to find the operand again.

`Reading.matches_decodeAt_iff` puts them together for all statements.  Three kinds of statements are
not decoded as they were written, and no others (`Operation.Lossy`).
-/

namespace Cosmac

/-! ### The instruction table -/

namespace Instruction

variable {i : Instruction} {b : Nat}

/-- An instruction has the opcode bytes from its least operand on. -/
theorem covers_iff : i.covers b = true ↔
    i.opcode + i.operand.least ≤ b ∧ b < i.opcode + i.operand.field.getD 1 := by
  unfold covers
  cases i.operand with
  | none | immediate | shortAddress | longAddress =>
    show (i.opcode == b) = true ↔ i.opcode + 0 ≤ b ∧ b < i.opcode + 1
    rw [beq_iff_eq]
    omega
  | register | nonzeroRegister | device =>
    show (decide _ && decide _) = true ↔ _
    rw [Bool.and_eq_true, decide_eq_true_eq, decide_eq_true_eq]
    exact Iff.rfl

theorem isSome_ofOpcode (hi : i ∈ all) (h : i.covers b = true) : (ofOpcode? b).isSome = true := by
  unfold ofOpcode?
  rw [Option.isSome_or, Bool.or_eq_true, List.find?_isSome, List.find?_isSome]
  cases hfield : i.operand.field with
  | none => exact Or.inl ⟨i, hi, by simp [hfield, h]⟩
  | some values => exact Or.inr ⟨i, hi, by simp [hfield, h]⟩

/-- The opcode bytes of an instruction with a register or device are its own. -/
theorem opcodes_disjoint : ∀ i ∈ all, i.operand.field.isSome = true → ∀ j ∈ all,
    (j.opcode = i.opcode ∧ j.operand = i.operand) ∨
    j.opcode + j.operand.field.getD 1 ≤ i.opcode + i.operand.least ∨
    i.opcode + i.operand.field.getD 1 ≤ j.opcode + j.operand.least := by
  decide +kernel

/-- An instruction that is the whole byte shares it only with others of its kind, if it is not
`NLBR`. -/
theorem ofOpcode_opcode : ∀ i ∈ all, i.operand.field = none → i.mnemonic ≠ "NLBR".toList →
    ∀ j ∈ ofOpcode? i.opcode, j.opcode = i.opcode ∧ j.operand = i.operand := by
  decide +kernel

/-- The byte of `NLBR` is the one of `LSKP`, and the byte of a device instruction without a device
is another instruction or none. -/
theorem ofOpcode_opcode_ne : ∀ i ∈ all, i.mnemonic = "NLBR".toList ∨ i.operand = .device →
    ((ofOpcode? i.opcode).map (·.operand)).getD .none ≠ i.operand := by
  decide +kernel

theorem operand_of_nlbr : ∀ i ∈ all, i.mnemonic = "NLBR".toList → i.operand = .longAddress := by
  decide +kernel

theorem encode_eq (i : Instruction) (v : Int) :
    i.encode v = i.opcode + (v % (i.operand.field.getD 1 : Nat)).toNat := by
  unfold encode
  cases i.operand.field with
  | none =>
    show i.opcode = i.opcode + (v % 1).toNat
    rw [Int.emod_one]
    rfl
  | some values => rfl

/-- **An opcode byte stands for an instruction with the opcode and the kind of operand that it was
made from**, though perhaps by another name. -/
theorem ofOpcode_encode (hi : i ∈ all) (hname : i.mnemonic ≠ "NLBR".toList) {v : Int}
    (hleast : i.operand.least ≤ (v % (i.operand.field.getD 1 : Nat)).toNat) :
    ∃ j, ofOpcode? (i.encode v) = some j ∧ j.opcode = i.opcode ∧ j.operand = i.operand := by
  have hpos : (0 : Int) < (i.operand.field.getD 1 : Nat) := by
    cases i.operand <;> decide
  have hlt := Int.emod_lt_of_pos v hpos
  have hcovers : i.covers (i.encode v) = true := by
    rw [covers_iff, encode_eq]
    omega
  obtain ⟨j, hj⟩ := Option.isSome_iff_exists.mp (isSome_ofOpcode hi hcovers)
  refine ⟨j, hj, ?_⟩
  cases hfield : i.operand.field with
  | none =>
    rw [encode_of_field_none hfield] at hj
    exact ofOpcode_opcode i hi hfield hname j hj
  | some values =>
    -- the two instructions share a byte, so their bytes are not apart
    obtain ⟨hmem, hcovers'⟩ := mem_of_ofOpcode hj
    rw [covers_iff] at hcovers hcovers'
    rcases opcodes_disjoint i hi (by rw [hfield]; rfl) j hmem with hsame | hdisjoint
    · exact hsame
    · omega

theorem encode_lt (hi : i ∈ all) (v : Int) : i.encode v < 256 := by
  obtain ⟨hopcode, hfits⟩ := opcode_mod_field i hi
  cases hfield : i.operand.field with
  | none => rwa [encode_of_field_none hfield]
  | some values =>
    obtain ⟨_, hfits⟩ := hfits values hfield
    have hpos : (0 : Int) < values := by
      revert hfield
      cases i.operand <;> intro hfield <;> cases hfield <;> decide
    have hlt := Int.emod_lt_of_pos v hpos
    rw [encode_eq, hfield]
    show i.opcode + (v % (values : Int)).toNat < 256
    omega

/-- The field of an opcode byte holds the operand that it was made with. -/
theorem decode_encode (hi : i ∈ all) {j : Instruction} (hj : j.operand = i.operand) {values : Nat}
    (hfield : i.operand.field = some values) (v : Int) :
    (j.decode (i.encode v) : Int) = v % values := by
  obtain ⟨_, hopcode⟩ := opcode_mod_field i hi
  obtain ⟨hmod, _⟩ := hopcode values hfield
  have hvalues : values = 16 ∨ values = 8 := by
    revert hfield
    cases i.operand <;> intro hfield <;> cases hfield <;> decide
  have hdecode : j.decode (i.encode v) = ((i.encode v : Int) % values).toNat := by
    unfold decode
    rw [hj, hfield]
  rw [hdecode, encode_eq, hfield, Option.getD_some]
  rcases hvalues with rfl | rfl <;> omega

end Instruction

/-! ### The instruction at an offset -/

/-- At an offset inside the data stands the instruction that the data behind it start with. -/
theorem Disassembly.decodeAt_of_drop (names : AddressNames) (address : Int) {data : List UInt8}
    {offset : Nat} {opcode : UInt8} {rest : List UInt8} (h : data.drop offset = opcode :: rest) :
    decodeAt names address data offset = .ok (Disassembled.decode names address opcode rest) := by
  have hlength : data.length = offset + (rest.length + 1) := by
    have := congrArg List.length h
    rw [List.length_drop, List.length_cons] at this
    omega
  have hplace : ∀ n : Nat, placeOf data.length n = n := fun n => if_neg (by omega)
  unfold decodeAt Disassembled.decode
  dsimp only
  rw [if_neg (by omega), hplace, if_neg (by omega), Int.toNat_natCast, h]
  dsimp only
  cases Instruction.ofOpcode? opcode.toNat with
  | none => rfl
  | some i =>
    dsimp only
    have hsize : 0 < i.size := by
      unfold Instruction.size OperandKind.size
      split <;> decide
    by_cases hshort : rest.length + 1 < i.size
    · rw [if_pos hshort, if_pos (by omega)]
    · have hslice : slice data offset (offset + i.size) = opcode :: rest.take (i.size - 1) := by
        obtain ⟨n, hn⟩ := Nat.exists_eq_succ_of_ne_zero (Nat.ne_of_gt hsize)
        unfold slice
        rw [← Int.natCast_add, hplace, hplace, Int.toNat_natCast, Int.toNat_natCast,
          List.drop_take, Nat.add_sub_cancel_left, h, hn, List.take_succ_cons, Nat.succ_sub_one]
      rw [if_neg hshort, if_neg (by omega), hslice]
      unfold withBytes
      rw [if_pos (by rw [List.length_cons, List.length_take]; omega)]
      rfl

theorem Disassembly.decodeAt_zero (names : AddressNames) (address : Int) (opcode : UInt8)
    (rest : List UInt8) : decodeAt names address (opcode :: rest) 0
      = .ok (Disassembled.decode names address opcode rest) :=
  decodeAt_of_drop names address rfl

namespace Disassembled

variable {names : AddressNames} {address : Int} {opcode : UInt8}

theorem kind_decode (rest : List UInt8) : (decode names address opcode rest).kind
    = ((Instruction.ofOpcode? opcode.toNat).map (·.operand)).getD .none := by
  rcases decode_cases names address opcode rest with
    ⟨h, hdecode⟩ | ⟨i, h, _, hdecode⟩ | ⟨i, operands, h, _, _, hdecode⟩ <;> rw [hdecode, h] <;> rfl

theorem size_decode_le (rest : List UInt8) :
    (decode names address opcode rest).size ≤ (decode names address opcode rest).kind.size := by
  rcases decode_cases names address opcode rest with
    ⟨_, hdecode⟩ | ⟨i, _, hshort, hdecode⟩ | ⟨i, operands, _, _, _, hdecode⟩ <;> rw [hdecode]
  · exact Nat.le_refl 1
  · exact Nat.le_of_lt hshort
  · exact Nat.le_refl i.size

/-- Data behind the operand of an instruction do not matter. -/
theorem decode_append {i : Instruction} (h : Instruction.ofOpcode? opcode.toNat = some i)
    {operands : List UInt8} (hlength : operands.length + 1 = i.size) (data : List UInt8) :
    decode names address opcode (operands ++ data)
      = complete names i address opcode operands := by
  have htake : (operands ++ data).take (i.size - 1) = operands :=
    List.take_left' (by omega)
  unfold decode
  rw [h]
  dsimp only
  rw [htake, if_neg (by rw [List.length_append]; omega)]

end Disassembled

/-! ### The operand of an instruction -/

/-- The operand is an address, `A( )`. -/
def Argument.isAddress : Argument → Bool
  | .expression e => e.selector == .address
  | _ => false

section Operand

variable {c : Context} {v : Value}

theorem Term.addressOf_eval {term : Term} (hv : term.eval c = .ok v) : v.addressOf = false := by
  cases term with
  | here | constant | character =>
    obtain rfl := Except.ok.inj hv
    rfl
  | name n =>
    have hv : c.nameValue n = .ok v := hv
    rcases c.nameValue_cases n with ⟨_, _, heval⟩ | ⟨_, _, heval⟩ | ⟨_, _, heval⟩ <;>
      rw [heval] at hv
    · obtain rfl := Except.ok.inj hv
      rfl
    · obtain rfl := Except.ok.inj hv
      rfl
    · unfold Context.undefined at hv
      split_ifs at hv
      obtain rfl := Except.ok.inj hv
      rfl

theorem Expr.addressOf_eval {e : Expr} (hv : e.eval c = .ok v) :
    v.addressOf = (e.selector == .address) := by
  unfold Expr.eval at hv
  split at hv
  · cases hv
  · rename_i w hw
    obtain rfl := Except.ok.inj hv
    cases e.selector with
    | plain =>
      have hplain := Term.addressOf_eval hw
      cases e.offset <;> exact hplain
    | _ => rfl

/-- **The bytes of an operand behind the opcode**: those that the instruction takes, and one more
for an immediate operand that is an address. -/
theorem Reading.operandSize_of_addOperand {kind : OperandKind} {argument : Argument} {x : Reading}
    (hfits : argument.Fits kind) (h : addOperand c kind (.read argument) {} = (x, none)) :
    x.operandSize + 1
      = kind.size + if kind = .immediate ∧ argument.isAddress = true then 1 else 0 := by
  cases argument with
  | none =>
    obtain rfl := (Prod.mk.inj h).1
    cases kind with
    | none => rfl
    | _ => exact hfits.elim
  | register term =>
    obtain ⟨v, rfl⟩ := addRegister_eq_ok h
    cases kind with
    | register | nonzeroRegister | device => rfl
    | _ => exact hfits.elim
  | expression e =>
    obtain ⟨v, hv, ⟨rfl, hkind⟩ | ⟨rfl, rfl, haddress⟩ | ⟨rfl, hne, hne'⟩⟩ := addExpression_eq_ok h
    · rcases hkind with ⟨rfl, haddress⟩ | rfl
      · rw [Expr.addressOf_eval hv] at haddress
        simp [Argument.isAddress, haddress, OperandKind.size]
      · rfl
    · rw [Expr.addressOf_eval hv] at haddress
      simp [Argument.isAddress, haddress, OperandKind.size]
    · cases kind with
      | longAddress => rfl
      | immediate => exact absurd rfl hne
      | shortAddress => exact absurd rfl hne'
      | _ => exact hfits.elim

/-- What the final pass knows of the operand of an instruction. -/
structure Reading.Placed (pc : Int) (kind : OperandKind) (argument : Argument) (x : Reading) :
    Prop where
  /-- An immediate operand that is an address has a byte more than others. -/
  size : x.operandSize + 1 = kind.size +
    if kind = .immediate ∧ argument.isAddress = true then 1 else 0
  /-- The value is a word. -/
  word : IsWord x.value
  /-- A register fits into the opcode byte. -/
  field : kind = .register ∨ kind = .nonzeroRegister → x.value < 16
  /-- Register 0 is refused where it would be another instruction. -/
  least : kind = .nonzeroRegister → x.value ≠ 0
  /-- A branch stays in its page. -/
  page : kind = .shortAddress → samePage pc x.value = true

variable (hfinal : c.pass.isFinal = true)

include hfinal

namespace Reading

theorem placed_addRegister {kind : OperandKind} {term : RegisterTerm} {x : Reading}
    (hfits : (Argument.register term).Fits kind) (htidy : term.Tidy)
    (h : addRegister c kind term {} = (x, none)) : Placed c.pc kind (.register term) x := by
  have hsize := operandSize_of_addOperand hfits h
  unfold addRegister at h
  split at h
  · cases h
  · rename_i v hv
    obtain ⟨hnonneg, hlt⟩ := RegisterTerm.eval_lt htidy hv
    have hresolved := RegisterTerm.unresolved_of_final hfinal hv
    split_ifs at h with hzero
    · cases h
    · obtain rfl := (Prod.mk.inj h).1
      have hword : IsWord v.value := ⟨hnonneg, by omega⟩
      refine ⟨hsize, hword, fun _ => hlt, fun hkind heq => hzero ⟨hkind, heq, hresolved⟩, ?_⟩
      rintro rfl
      exact hfits.elim

theorem placed_addExpression (hc : c.InRange) {kind : OperandKind} {e : Expr} {x : Reading}
    (hfits : (Argument.expression e).Fits kind) (htidy : e.term.Tidy)
    (h : addExpression c kind e {} = (x, none)) : Placed c.pc kind (.expression e) x := by
  have hsize := operandSize_of_addOperand hfits h
  obtain ⟨v, hv, hx⟩ := addExpression_eq_ok h
  have hvalue : x.value = v.value := by
    rcases hx with ⟨rfl, _⟩ | ⟨rfl, _⟩ | ⟨rfl, _⟩ <;> rfl
  refine ⟨hsize, hvalue ▸ Expr.isWord_eval hc htidy hv, ?_, ?_, ?_⟩
  · -- an expression is the operand of no instruction that has it in the opcode byte
    rintro (rfl | rfl) <;> exact hfits.elim
  · rintro rfl
    exact hfits.elim
  · rintro rfl
    rw [hvalue]
    unfold addExpression at h
    rw [hv] at h
    dsimp only at h
    split_ifs at h with hout
    · cases h
    · simpa [hfinal] using hout

theorem placed_addOperand (hc : c.InRange) {kind : OperandKind} {argument : Argument} {x : Reading}
    (hfits : argument.Fits kind) (htidy : argument.Tidy)
    (h : addOperand c kind (.read argument) {} = (x, none)) : Placed c.pc kind argument x := by
  cases argument with
  | none =>
    obtain rfl := (Prod.mk.inj h).1
    cases kind with
    | none => exact ⟨rfl, isWord_zero, by simp, nofun, nofun⟩
    | _ => exact hfits.elim
  | register term => exact placed_addRegister hfinal hfits htidy h
  | expression e => exact placed_addExpression hfinal hc hfits htidy h

end Reading

end Operand

/-! ### The code of a statement -/

/-- The bytes behind an opcode for an operand of this kind. -/
def OperandKind.bytes : OperandKind → Int → List UInt8
  | .none, _ | .register, _ | .nonzeroRegister, _ | .device, _ => []
  | .immediate, v | .shortAddress, v => [byte v]
  | .longAddress, v => wordBytes v

/-- What a decoded instruction shows of the value of its operand. -/
def OperandKind.visible : OperandKind → Int → Option Int
  | .none, _ => Option.none
  | .register, v | .nonzeroRegister, v | .shortAddress, v | .longAddress, v => some v
  | .device, v => some (v % 8)
  | .immediate, v => some (lowByte v)

/-- The decoded instruction is the one of the statement. -/
structure Disassembled.Matches (d : Disassembled) (i : Instruction) (r : Reading) : Prop where
  /-- It takes the bytes of the opcode and the operand. -/
  size : d.size = 1 + r.operandSize
  /-- Its operand is of the same kind. -/
  kind : d.kind = i.operand
  /-- Its mnemonic stands for the same opcode. -/
  opcode : ∃ j, Instruction.ofMnemonic? d.mnemonic = some j ∧ j.opcode = i.opcode
  /-- Its operand is that of the statement. -/
  operand : d.operand = i.operand.visible r.value

/-- What the code does not tell: `NLBR` is coded as `LSKP`, device 0 as another instruction, and the
code of an immediate operand `A( )` has a byte too many. -/
inductive Operation.Lossy (value : Int) : Operation → Prop
  /-- A long branch that is a skip. -/
  | longSkip {i : Instruction} {operand : Operand Argument} {list : DataList}
      (hname : i.mnemonic = "NLBR".toList) : Lossy value (.instruction i operand list)
  /-- A device whose low bits are 0. -/
  | device {i : Instruction} {operand : Operand Argument} {list : DataList}
      (hkind : i.operand = .device) (hvalue : value % 8 = 0) :
      Lossy value (.instruction i operand list)
  /-- An immediate address. -/
  | address {i : Instruction} {e : Expr} {list : DataList} (hkind : i.operand = .immediate)
      (hselector : e.selector = .address) :
      Lossy value (.instruction i (.read (.expression e)) list)

namespace Reading

theorem samePage_iff {pc v : Int} (hv : IsWord v) :
    samePage pc v = true ↔ v = highByte (pc + 1) * 0x100 + lowByte v := by
  unfold IsWord at hv
  unfold samePage highByte lowByte
  rw [beq_iff_eq]
  omega

theorem wordBytes_eq {v : Int} (hv : IsWord v) :
    ((byte (highByte v)).toNat : Int) * 0x100 + (byte (lowByte v)).toNat = v := by
  rw [toNat_byte, toNat_byte]
  unfold IsWord at hv
  unfold highByte lowByte
  omega

theorem Placed.length_operandBytes {pc : Int} {kind : OperandKind} {argument : Argument}
    {x : Reading} (h : Placed pc kind argument x) : x.operandBytes.length = x.operandSize := by
  have hsize := h.size
  have hle : x.operandSize ≤ 2 := by
    have hkind : kind.size ≤ 3 ∧ (kind = .immediate → kind.size = 2) := by cases kind <;> decide
    split_ifs at hsize with hwide
    · have hkind := hkind.2 hwide.1
      omega
    · omega
  unfold operandBytes
  split_ifs with htwo hone
  · exact htwo.symm
  · exact hone.symm
  · show 0 = x.operandSize
    omega

theorem Placed.operandBytes_eq {pc : Int} {kind : OperandKind} {argument : Argument} {x : Reading}
    (h : Placed pc kind argument x) (hwide : ¬(kind = .immediate ∧ argument.isAddress = true)) :
    x.operandBytes = kind.bytes x.value := by
  have hsize := h.size
  rw [if_neg hwide] at hsize
  have hsize : x.operandSize = kind.size - 1 := by omega
  unfold operandBytes
  rw [hsize]
  cases kind <;> rfl

end Reading

namespace Disassembled

variable {names : AddressNames} {pc : Int} {i j : Instruction} {argument : Argument} {x : Reading}

/-- **The operand is found again**: in the opcode byte, or in the bytes behind it. -/
theorem operand_complete (hi : i ∈ Instruction.all) (hj : j.operand = i.operand)
    (hx : x.Placed pc i.operand argument)
    (hwide : ¬(i.operand = .immediate ∧ argument.isAddress = true)) :
    (complete names j pc (UInt8.ofNat (i.encode x.value)) x.operandBytes).operand
      = i.operand.visible x.value := by
  have hbyte : (UInt8.ofNat (i.encode x.value)).toNat = i.encode x.value := by
    rw [UInt8.toNat_ofNat', Nat.mod_eq_of_lt (Instruction.encode_lt hi _)]
  have hfield : ∀ {values : Nat}, i.operand.field = some values →
      (j.decode (UInt8.ofNat (i.encode x.value)).toNat : Int) = x.value % values := by
    intro values hvalues
    rw [hbyte]
    exact Instruction.decode_encode hi hj hvalues x.value
  have hbytes := hx.operandBytes_eq hwide
  have hword := hx.word
  show (operandOf names j pc _ x.operandBytes).1 = _
  unfold operandOf
  rw [hbytes, hj]
  cases hkind : i.operand with
  | none => rfl
  | register | nonzeroRegister =>
    have hlt := hx.field (by rw [hkind]; decide)
    show some _ = some _
    rw [hfield (by rw [hkind]; rfl)]
    exact congrArg some (Int.emod_eq_of_lt hword.1 hlt)
  | device => exact congrArg some (hfield (by rw [hkind]; rfl))
  | immediate => exact congrArg some (toNat_byte x.value)
  | shortAddress =>
    have hpage := (Reading.samePage_iff hword).mp (hx.page hkind)
    show some (highByte (pc + 1) * 0x100 + ((byte x.value).toNat : Int)) = some x.value
    rw [toNat_byte, ← hpage]
  | longAddress => exact congrArg some (Reading.wordBytes_eq hword)

theorem not_matches_of_lossy {list : DataList} (hi : i ∈ Instruction.all)
    (hx : x.Placed pc i.operand argument) (data : List UInt8)
    (hlossy : (Operation.instruction i (.read argument) list).Lossy x.value) {r : Reading}
    (hsize : r.operandSize = x.operandSize) :
    ¬(decode names pc (UInt8.ofNat (i.encode x.value)) (x.operandBytes ++ data)).Matches i r := by
  intro hmatches
  have hkind := hmatches.kind
  rw [kind_decode, UInt8.toNat_ofNat', Nat.mod_eq_of_lt (Instruction.encode_lt hi _)] at hkind
  cases hlossy with
  | longSkip hname =>
    -- a skip has no operand
    have hoperand := Instruction.operand_of_nlbr i hi hname
    rw [Instruction.encode_of_field_none (by rw [hoperand]; rfl)] at hkind
    exact Instruction.ofOpcode_opcode_ne i hi (Or.inl hname) hkind
  | device hdevice hvalue =>
    have hencode : i.encode x.value = i.opcode := by
      rw [Instruction.encode_eq, hdevice]
      show i.opcode + (x.value % 8).toNat = _
      rw [hvalue]
      rfl
    rw [hencode] at hkind
    exact Instruction.ofOpcode_opcode_ne i hi (Or.inr hdevice) hkind
  | address himmediate hselector =>
    -- three bytes of code, where an immediate operand has two
    have hle : (decode names pc (UInt8.ofNat (i.encode x.value)) (x.operandBytes ++ data)).size
        ≤ (decode names pc (UInt8.ofNat (i.encode x.value)) (x.operandBytes ++ data)).kind.size :=
      size_decode_le _
    have hthree := hx.size
    rw [if_pos ⟨himmediate, beq_iff_eq.mpr hselector⟩] at hthree
    rw [hmatches.kind, hmatches.size, himmediate, hsize] at hle
    rw [himmediate] at hthree
    exact absurd hle (by simp only [OperandKind.size] at hthree ⊢; omega)

/-- The least operand of an instruction is in the opcode byte, unless it is device 0. -/
theorem least_le_field (hx : x.Placed pc i.operand argument)
    (hdevice : i.operand = .device → x.value % 8 ≠ 0) :
    i.operand.least ≤ (x.value % (i.operand.field.getD 1 : Nat)).toNat := by
  have hnonneg := hx.word.1
  cases hkind : i.operand with
  | nonzeroRegister =>
    have hlt := hx.field (Or.inr hkind)
    have hne := hx.least hkind
    show 1 ≤ (x.value % 16).toNat
    omega
  | device =>
    have hne := hdevice hkind
    show 1 ≤ (x.value % 8).toNat
    omega
  | _ => exact Nat.zero_le _

/-- **The instruction that was assembled is the one that is decoded**, if the code tells it. -/
theorem matches_decode {list : DataList} (hi : i ∈ Instruction.all)
    (hx : x.Placed pc i.operand argument) (data : List UInt8)
    (hlossless : ¬(Operation.instruction i (.read argument) list).Lossy x.value) {r : Reading}
    (hvalue : r.value = x.value) (hsize : r.operandSize = x.operandSize) :
    (decode names pc (UInt8.ofNat (i.encode x.value)) (x.operandBytes ++ data)).Matches i r := by
  have hwide : ¬(i.operand = .immediate ∧ argument.isAddress = true) := by
    rintro ⟨hkind, haddress⟩
    cases argument with
    | expression e => exact hlossless (.address hkind (beq_iff_eq.mp haddress))
    | _ => cases haddress
  have hoperandSize := hx.size
  rw [if_neg hwide] at hoperandSize
  obtain ⟨j, hfound, hopcode, hkind⟩ := Instruction.ofOpcode_encode hi
    (fun hname => hlossless (.longSkip hname))
    (least_le_field hx fun hkind hzero => hlossless (.device hkind hzero))
  have hsize' : j.size = i.operand.size := congrArg OperandKind.size hkind
  have hbyte : Instruction.ofOpcode? (UInt8.ofNat (i.encode x.value)).toNat = some j := by
    rw [UInt8.toNat_ofNat', Nat.mod_eq_of_lt (Instruction.encode_lt hi _)]
    exact hfound
  rw [decode_append hbyte (by rw [hx.length_operandBytes, hsize']; exact hoperandSize)]
  refine ⟨?_, hkind, ⟨j, ?_, hopcode⟩, ?_⟩
  · show j.size = 1 + r.operandSize
    omega
  · exact (Instruction.ofMnemonic_mnemonic j (Instruction.mem_of_ofOpcode hfound).1).1
  · rw [hvalue]
    exact operand_complete hi hkind hx hwide

end Disassembled

/-! ### Statements -/

section Statements

variable {c : Context} {t : Text}

/-- **The code of an instruction**: the opcode byte, the operand bytes and the data. -/
theorem Reading.exists_of_status_instruction (h : (ofText c t).status = .instruction) :
    ∃ i argument list x data, (Shape.read t).operation = .instruction i (.read argument) list ∧
      addOperand c i.operand (.read argument) {} = (x, none) ∧
      (ofText c t).instruction = some i ∧ (ofText c t).value = x.value ∧
      (ofText c t).operandSize = x.operandSize ∧
      (ofText c t).code = UInt8.ofNat (i.encode x.value) :: (x.operandBytes ++ data) := by
  obtain ⟨i, argument, list, x, bs, hop, hx, _, heq⟩ := exists_of_instruction h
  rw [heq]
  exact ⟨i, argument, list, x, bs.flatten, hop, hx, rfl, rfl, rfl, rfl⟩

theorem Reading.addOperand_shortAddress (hfinal : c.pass.isFinal = true) {e : Expr} {v : Value}
    (hv : e.eval c = .ok v) (r : Reading) :
    addOperand c .shortAddress (.read (.expression e)) r
      = if samePage c.pc v.value then ({ r.setValue v with operandSize := 1 }, none)
        else (r.setValue v, some (.branchRange v.value c.pc)) := by
  show addExpression c .shortAddress e r = _
  unfold addExpression
  rw [hv]
  dsimp only
  rw [hfinal, Bool.true_and]
  cases samePage c.pc v.value <;> rfl

theorem Status.eq_failed_of_error {status : Status} {d : Diagnostic}
    (h : status.error? = some d) : status = .failed d := by
  cases status with
  | failed e => exact congrArg Status.failed (Option.some.inj h)
  | _ => cases h

/-- **A branch is refused exactly if its target cannot be rebuilt** from the page of its operand and
the low byte. -/
theorem Reading.branchOutOfPage_iff (hc : c.InRange) (hfinal : c.pass.isFinal = true)
    {i : Instruction} {e : Expr} {list : DataList} {v : Value}
    (hop : (Shape.read t).operation = .instruction i (.read (.expression e)) list)
    (hkind : i.operand = .shortAddress) (hv : e.eval c = .ok v) :
    (∃ d, (ofText c t).status = .failed d ∧ d.kind = .branchOutOfPage) ↔
      v.value ≠ highByte (c.pc + 1) * 0x100 + lowByte v.value := by
  have htidy := Shape.tidy_read t
  rw [hop] at htidy
  have herror : (ofText c t).status.error? = _ := Shape.error_resolve c (Shape.read t)
  unfold Shape.progress at herror
  rw [hop] at herror
  dsimp only at herror
  rw [addInstruction, hkind, addOperand_shortAddress hfinal hv] at herror
  rw [Ne, ← samePage_iff (Expr.isWord_eval hc htidy.1 hv)]
  cases hpage : samePage c.pc v.value with
  | false =>
    rw [hpage] at herror
    exact ⟨fun _ => nofun, fun _ => ⟨_, Status.eq_failed_of_error herror, rfl⟩⟩
  | true =>
    -- what is left is the data list, and no fault of it is a branch
    refine ⟨?_, fun hne => absurd rfl hne⟩
    rintro ⟨d, hstatus, hbranch⟩
    rw [hpage, hstatus] at herror
    rcases kind_addData c htidy.2 d herror.symm with hlexical | hundefined
    · rw [hbranch] at hlexical
      exact absurd .branchOutOfPage hlexical
    · rw [hbranch] at hundefined
      cases hundefined

end Statements

/-- **What is assembled is what is decoded.**  The code of a statement that is an instruction starts
with that instruction, unless the code cannot tell it; and a branch is refused exactly if its target
cannot be told from the code. -/
theorem Reading.matches_decodeAt_iff {c : Context} (hc : c.InRange)
    (hfinal : c.pass.isFinal = true) (names : AddressNames) (t : Text) :
    ((ofText c t).status = .instruction →
      ∃ i d, (ofText c t).instruction = some i ∧
        Disassembly.decodeAt names c.pc (ofText c t).code 0 = .ok d ∧
        (d.Matches i (ofText c t) ↔ ¬(Shape.read t).operation.Lossy (ofText c t).value)) ∧
    ∀ i e list v, (Shape.read t).operation = .instruction i (.read (.expression e)) list →
      i.operand = .shortAddress → e.eval c = .ok v →
      ((∃ d, (ofText c t).status = .failed d ∧ d.kind = .branchOutOfPage) ↔
        v.value ≠ highByte (c.pc + 1) * 0x100 + lowByte v.value) := by
  refine ⟨fun hstatus => ?_, fun i e list v => branchOutOfPage_iff hc hfinal⟩
  obtain ⟨i, argument, list, x, data, hop, hx, hi, hvalue, hsize, hcode⟩ :=
    exists_of_status_instruction hstatus
  have hfits := Shape.fits_read t
  have htidy := Shape.tidy_read t
  rw [hop] at hfits htidy
  have hplaced := placed_addOperand hfinal hc hfits.2 htidy.1 hx
  refine ⟨i, _, hi, by rw [hcode]; exact Disassembly.decodeAt_zero .., ?_⟩
  rw [hop, hvalue]
  constructor
  · exact fun hmatches hlossy =>
      Disassembled.not_matches_of_lossy hfits.1 hplaced data hlossy hsize hmatches
  · exact fun hlossless =>
      Disassembled.matches_decode hfits.1 hplaced data hlossless hvalue hsize

/-- A branch from the last place that reaches its target, and one from the next place. -/
theorem Reading.matches_decodeAt_page_end :
    (∃ i d, Disassembly.decodeAt {} 0x12FE
        (ofText ⟨⟨[{ name := "LOOP".toList, value := some 0x1234 }]⟩, 0x12FE, .final⟩
          "BNZ LOOP".toList).code 0 = .ok d ∧
      d.Matches i (ofText ⟨⟨[{ name := "LOOP".toList, value := some 0x1234 }]⟩, 0x12FE, .final⟩
        "BNZ LOOP".toList)) ∧
    ∃ d, (ofText ⟨⟨[{ name := "LOOP".toList, value := some 0x1234 }]⟩, 0x12FF, .final⟩
      "BNZ LOOP".toList).status = .failed d ∧ d.kind = .branchOutOfPage := by
  have hop : (Shape.read "BNZ LOOP".toList).operation
      = .instruction ⟨"BNZ".toList, 0x3A, .shortAddress⟩
          (.read (.expression ⟨.plain, .name "LOOP".toList, none⟩)) {} := by
    decide +kernel
  constructor
  · have hboth := matches_decodeAt_iff
      (c := ⟨⟨[{ name := "LOOP".toList, value := some 0x1234 }]⟩, 0x12FE, .final⟩)
      ⟨by decide, by decide⟩ rfl {} "BNZ LOOP".toList
    obtain ⟨i, d, _, hd, hiff⟩ := hboth.1 (by decide +kernel)
    refine ⟨i, d, hd, hiff.mpr fun hlossy => ?_⟩
    rw [hop] at hlossy
    cases hlossy with
    | longSkip hname => exact absurd hname (by decide)
    | device hkind _ => cases hkind
    | address hkind _ => cases hkind
  · have hboth := matches_decodeAt_iff
      (c := ⟨⟨[{ name := "LOOP".toList, value := some 0x1234 }]⟩, 0x12FF, .final⟩)
      ⟨by decide, by decide⟩ rfl {} "BNZ LOOP".toList
    exact (hboth.2 _ _ _ { value := 0x1234 } hop rfl (by decide +kernel)).mpr (by decide)

end Cosmac
