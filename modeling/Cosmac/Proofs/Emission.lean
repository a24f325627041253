import Cosmac.Proofs.Encoding
import Mathlib.Algebra.Group.Int.Defs

/-!
# What a statement emits

The size of a statement is counted while it is read: the bytes that its instruction takes, one more
for an immediate operand that is an address, and the bytes of each data item.  The code is made only
at the end, and from other fields.  That the two agree is said part by part:

* `Reading.IsCoded`: the code of an instruction is its opcode byte, its operand and its data, and
  the size counts all three;
* `bigEndian`: the number that bytes stand for, which tells what the bytes of the operand are.

The main statement is `Reading.emits_size`.
-/

namespace Cosmac

/-- The number that bytes stand for, the high one first. -/
def bigEndian (bytes : List UInt8) : Nat := bytes.foldl (fun n b => 0x100 * n + b.toNat) 0

theorem bigEndian_byte (v : Int) : (bigEndian [byte v] : Int) = v % 0x100 := by
  have hbyte := toNat_byte v
  simp only [bigEndian, List.foldl_cons, List.foldl_nil]
  unfold lowByte at hbyte
  omega

theorem bigEndian_wordBytes (v : Int) : (bigEndian (wordBytes v) : Int) = v % 0x10000 := by
  have hhigh := toNat_byte (highByte v)
  have hlow := toNat_byte (lowByte v)
  simp only [bigEndian, wordBytes, List.foldl_cons, List.foldl_nil]
  unfold lowByte highByte at *
  omega

namespace Reading

variable {c : Context} {t : Text}

/-! ### Operands -/

theorem operandSize_le {kind : OperandKind} {argument : Argument} {x : Reading}
    (hfits : argument.Fits kind) (h : addOperand c kind (.read argument) {} = (x, none)) :
    x.operandSize ≤ 2 := by
  have hsize := operandSize_of_addOperand hfits h
  split_ifs at hsize with himmediate
  · rw [himmediate.1, OperandKind.size] at hsize
    omega
  · have hkind : kind.size ≤ 3 := by cases kind <;> decide
    omega

/-- **The operand bytes are the low bytes of the value**, the high one first. -/
theorem operandBytes_spec {r : Reading} (h : r.operandSize ≤ 2) :
    r.operandBytes.length = r.operandSize ∧
      (bigEndian r.operandBytes : Int) = r.value % 0x100 ^ r.operandSize := by
  unfold operandBytes
  obtain hzero | hone | htwo : r.operandSize = 0 ∨ r.operandSize = 1 ∨ r.operandSize = 2 := by
    omega
  · rw [hzero]
    exact ⟨rfl, (Int.emod_one _).symm⟩
  · rw [hone]
    exact ⟨rfl, bigEndian_byte r.value⟩
  · rw [htwo]
    exact ⟨rfl, bigEndian_wordBytes r.value⟩

/-! ### Data -/

/-- **The data are the bytes of the items.** -/
theorem exists_data (h : (ofText c t).status.error? = none) :
    ∃ bs : List (List UInt8),
      (Shape.read t).operation.items.map (Item.bytes c) = bs.map Except.ok ∧
        (ofText c t).data = bs.flatten := by
  obtain ⟨r, hr, heq⟩ := exists_progress h
  have hdata : (ofText c t).data = r.data := by
    rw [heq]
    rfl
  have hlast : ∀ {operand : Operand Expr} {fault : Option Kind} {r₁ : Reading}, r₁.data = [] →
      addLast c operand fault r₁ = (r, none) → r.data = [] := by
    intro operand fault r₁ hnil hlast
    rcases addLast_cases c operand fault r₁ with h | ⟨v, h⟩ <;> rw [hlast] at h <;>
      exact (congrArg Reading.data h).trans hnil
  rw [hdata]
  unfold Shape.progress at hr
  cases hop : (Shape.read t).operation with
  | data list =>
    rw [hop] at hr
    obtain ⟨_, bs, hbs, rfl⟩ := addData_eq_ok_iff.mp hr
    exact ⟨bs, hbs, rfl⟩
  | instruction i operand list =>
    have hstatus : (ofText c t).status = .instruction := by
      rw [heq, hop]
      rfl
    obtain ⟨_, _, _, x, bs, hop', _, hbs, heq'⟩ := exists_of_instruction hstatus
    rw [hop] at hop'
    cases hop'
    refine ⟨bs, hbs, ?_⟩
    rw [← hdata, heq']
    rfl
  | equate operand fault =>
    rw [hop] at hr
    exact ⟨[], rfl, hlast rfl hr⟩
  | origin operand fault =>
    rw [hop] at hr
    exact ⟨[], rfl, hlast rfl hr⟩
  | malformed d =>
    rw [hop] at hr
    cases hr
  | empty | page | finish =>
    rw [hop] at hr
    obtain rfl := (Prod.mk.inj hr).1
    exact ⟨[], rfl, rfl⟩

/-! ### Code and size -/

/-- The code of an instruction with its operand: the opcode byte, the operand bytes, the data. -/
structure IsCoded (r : Reading) (i : Instruction) (argument : Argument) (opcode : UInt8)
    (operand : List UInt8) : Prop where
  /-- The instruction is the one that was read. -/
  instruction : r.instruction = some i
  /-- The code consists of three parts. -/
  code : r.code = opcode :: (operand ++ r.data)
  /-- The opcode byte is that of the instruction if the operand has its place elsewhere. -/
  plain : i.operand.field = none → opcode.toNat = i.opcode
  /-- Else the field in the opcode byte holds the operand. -/
  packed : ∀ values, i.operand.field = some values →
    (opcode.toNat : Int) = i.opcode + r.value % values
  /-- The operand has the bytes that are counted for it. -/
  length : operand.length = r.operandSize
  /-- They are the low bytes of the value, the high one first. -/
  operand : (bigEndian operand : Int) = r.value % 0x100 ^ r.operandSize
  /-- The size counts all parts. -/
  size : r.size = 1 + r.operandSize + r.data.length
  /-- Without data it is that of the instruction, and a byte more with an immediate address. -/
  room : 1 + r.operandSize
    = i.size + if i.operand = .immediate ∧ argument.isAddress = true then 1 else 0

theorem exists_isCoded (h : (ofText c t).status = .instruction) :
    ∃ i argument list opcode operand,
      (Shape.read t).operation = .instruction i (.read argument) list ∧
        (ofText c t).IsCoded i argument opcode operand := by
  have hsize := size_ofText c t (by rw [h]; rfl)
  have hfits := Shape.fits_read t
  obtain ⟨i, argument, list, x, bs, hop, hx, _, heq⟩ := exists_of_instruction h
  rw [hop] at hfits
  obtain ⟨hlength, hoperand⟩ := operandBytes_spec (operandSize_le hfits.2 hx)
  have hcode : (ofText c t).code
      = UInt8.ofNat (i.encode x.value) :: (x.operandBytes ++ (ofText c t).data) := by
    rw [heq]
    rfl
  have hinstruction : (ofText c t).instruction = some i := by
    rw [heq]
    rfl
  have hvalue : (ofText c t).value = x.value := by
    rw [heq]
    rfl
  have hoperandSize : (ofText c t).operandSize = x.operandSize := by
    rw [heq]
    rfl
  have hopcode : (UInt8.ofNat (i.encode x.value)).toNat = i.encode x.value := by
    rw [UInt8.toNat_ofNat', Nat.mod_eq_of_lt (Instruction.encode_lt hfits.1 _)]
  refine ⟨i, argument, list, UInt8.ofNat (i.encode x.value), x.operandBytes, hop,
    hinstruction, hcode, fun hfield => ?_, fun values hfield => ?_, ?_, ?_, ?_, ?_⟩
  · rw [hopcode, Instruction.encode_of_field_none hfield]
  · rw [hopcode, Instruction.encode_of_field_some hfield, hvalue]
  · rw [hlength, hoperandSize]
  · rw [hoperand, hvalue, hoperandSize]
  · rw [hsize, hcode, List.length_cons, List.length_append, hlength, hoperandSize]
    omega
  · rw [hoperandSize, Nat.add_comm]
    exact operandSize_of_addOperand hfits.2 hx

/-- A statement that is no instruction takes room for its data alone. -/
theorem size_eq_length_data (h : (ofText c t).status.error? = none)
    (hne : (ofText c t).status ≠ .instruction) : (ofText c t).size = (ofText c t).data.length := by
  obtain ⟨r, _, heq⟩ := exists_progress h
  obtain ⟨bs, hbs, hdata⟩ := exists_data h
  have hstatus : (ofText c t).status = (Shape.read t).operation.status := by
    rw [heq]
    rfl
  by_cases hroom : (Shape.read t).operation.takesRoom = false
  · -- there are no items, so there are no bytes
    have hitems : (Shape.read t).operation.items = [] := by
      cases hop : (Shape.read t).operation with
      | data | instruction => rw [hop] at hroom; cases hroom
      | _ => rfl
    rw [hitems] at hbs
    rw [hdata, List.map_eq_nil_iff.mp hbs.symm]
    exact Shape.size_resolve_eq_zero c _ hroom
  · rw [size_ofText c t h]
    cases hop : (Shape.read t).operation with
    | data list =>
      rw [heq, hop]
      rfl
    | instruction i operand list => exact absurd (by rw [hstatus, hop]; rfl) hne
    | _ => exact absurd (by rw [hop]; rfl) hroom

/-- **The size of a statement is what it emits.**  Without an error the code is as long as the size,
and the data in it are the bytes of the items; an instruction emits its opcode byte, its operand and
its data; and with an error there is no code. -/
theorem emits_size (c : Context) (t : Text) :
    ((ofText c t).status.error? = none →
      (ofText c t).code.length = (ofText c t).size ∧
      ∃ bs : List (List UInt8),
        (Shape.read t).operation.items.map (Item.bytes c) = bs.map Except.ok ∧
          (ofText c t).data = bs.flatten) ∧
    ((ofText c t).status = .instruction →
      ∃ i argument list opcode operand,
        (Shape.read t).operation = .instruction i (.read argument) list ∧
          (ofText c t).IsCoded i argument opcode operand) ∧
    ∀ d, (ofText c t).status = .failed d → (ofText c t).code = [] :=
  ⟨fun h => ⟨(size_ofText c t h).symm, exists_data h⟩, exists_isCoded,
    fun d h => Shape.code_resolve_of_failed c (Shape.read t) d h⟩

/-- An immediate address takes two bytes, and a string and a word of data stand behind it. -/
theorem emits_size_address :
    (ofText {} "LDI A(*),T'AB',#1234".toList).status = .instruction ∧
    ∃ i argument list opcode operand,
      (Shape.read "LDI A(*),T'AB',#1234".toList).operation
        = .instruction i (.read argument) list ∧
      (ofText {} "LDI A(*),T'AB',#1234".toList).IsCoded i argument opcode operand :=
  ⟨by decide +kernel, (emits_size {} _).2.1 (by decide +kernel)⟩

end Reading

end Cosmac
