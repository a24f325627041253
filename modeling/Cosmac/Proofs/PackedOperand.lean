import Cosmac.Proofs.Encoding

/-!
# Operands inside the opcode byte

A register or device has three or four bits of the opcode byte.  The encoder cuts off what does not
fit, so the operand survives only if what is too large has been refused before.  Whether it has is a
matter of how the operand is written:

* `RegisterTerm.number?`: the number that an operand is written as, if it is known;
* `OperandKind.Holds`: the numbers that an operand of a kind may have;
* `RegisterTerm.Spills`: a device that is written as one of the registers `R8` to `RF`.

This last spelling is the only one whose number is not checked (`Reading.addRegister_of_number`).
`Reading.decode_packed_iff` says that it is also the only one whose operand does not survive.
-/

namespace Cosmac

/-- The numbers that an operand inside the opcode byte may have. -/
def OperandKind.Holds : OperandKind → Int → Prop
  | register, k => 0 ≤ k ∧ k ≤ 15
  | nonzeroRegister, k => 1 ≤ k ∧ k ≤ 15
  | device, k => 0 ≤ k ∧ k ≤ 7
  | none, _ | immediate, _ | shortAddress, _ | longAddress, _ => False

instance : (kind : OperandKind) → (k : Int) → Decidable (kind.Holds k)
  | .register, _ | .nonzeroRegister, _ | .device, _ => inferInstanceAs (Decidable (_ ∧ _))
  | .none, _ | .immediate, _ | .shortAddress, _ | .longAddress, _ =>
    inferInstanceAs (Decidable False)

namespace RegisterTerm

/-- The number that the operand is written as, if it is known: a constant, a symbol for its low
bits, a register by its name, or a hexadecimal number. -/
def number? (symbols : SymbolTable) (kind : OperandKind) : RegisterTerm → Option Int
  | .value n => some n
  | .name w =>
    match symbols.lookup w with
    | some symbol => symbol.value.map fun v => v % ((kind.field.getD 1 : Nat) : Int)
    | none =>
      if Token.isRegisterWord w then some (Token.number 16 (w.drop 1))
      else if Token.isHexWord w then some (Token.number 16 w)
      else none

/-- The operand is a register by its name. -/
def isRegisterName (symbols : SymbolTable) : RegisterTerm → Bool
  | .value _ => false
  | .name w => (symbols.lookup w).isNone && Token.isRegisterWord w

/-- The operand is a device, written as a register that no device has the number of. -/
def Spills (symbols : SymbolTable) (kind : OperandKind) (term : RegisterTerm) : Prop :=
  kind = .device ∧ ∃ d, term = .name ['R', d] ∧ symbols.lookup ['R', d] = none ∧
    Token.isHexWord [d] = true ∧ 7 < Token.number 16 [d]

variable {c : Context} {kind : OperandKind} {term : RegisterTerm} {k : Int}

theorem number?_of_some {symbols : SymbolTable} {w : Text} {symbol : Symbol}
    (h : symbols.lookup w = some symbol) : (RegisterTerm.name w).number? symbols kind
      = symbol.value.map fun v => v % ((kind.field.getD 1 : Nat) : Int) := by
  simp [number?, h]

theorem number?_of_none {symbols : SymbolTable} {w : Text} (h : symbols.lookup w = none) :
    (RegisterTerm.name w).number? symbols kind
      = if Token.isRegisterWord w then some ((Token.number 16 (w.drop 1) : Nat) : Int)
        else if Token.isHexWord w then some ((Token.number 16 w : Nat) : Int) else none := by
  simp [number?, h]

theorem field_eq (hpacked : kind.field.isSome = true) :
    kind.field = some ((Reading.registerClass kind).limit + 1) := by
  cases kind with
  | register | nonzeroRegister | device => rfl
  | none | immediate | shortAddress | longAddress => cases hpacked

/-- **An operand with a number is checked**, unless it is a register by its name. -/
theorem eval_of_number (hpacked : kind.field.isSome = true)
    (hk : term.number? c.symbols kind = some k) :
    term.eval c (Reading.registerClass kind)
      = if term.isRegisterName c.symbols ∨ k ≤ (Reading.registerClass kind).limit then
          .ok { value := k }
        else .error (.ofKind (Reading.registerClass kind).kind) := by
  have hfield := field_eq hpacked
  generalize Reading.registerClass kind = r at hfield ⊢
  have hcheck : ∀ n : Nat, r.check n
      = if (n : Int) ≤ r.limit then .ok { value := n } else .error (.ofKind r.kind) := by
    intro n
    unfold RegisterClass.check
    by_cases hn : n > r.limit
    · rw [if_pos hn, if_neg (by omega)]
    · rw [if_neg hn, if_pos (by omega)]
  cases term with
  | value n =>
    obtain rfl := Option.some.inj hk
    simp only [isRegisterName, Bool.false_eq_true, false_or]
    exact hcheck n
  | name w =>
    cases hlookup : c.symbols.lookup w with
    | some symbol =>
      -- the low bits of a symbol are in range
      rw [number?_of_some hlookup, hfield] at hk
      obtain ⟨v, hv, rfl⟩ := Option.map_eq_some_iff.mp hk
      have hlt := Int.emod_lt_of_pos v (b := ((r.limit + 1 : Nat) : Int)) (by omega)
      rw [eval_of_valueOf c w r (SymbolTable.valueOf_eq_some_iff.mpr ⟨symbol, hlookup, hv⟩),
        if_pos (Or.inr (by rw [Option.getD_some]; omega))]
      rfl
    | none =>
      rw [number?_of_none hlookup] at hk
      rw [eval_of_lookup_none c w r hlookup]
      by_cases hregister : Token.isRegisterWord w = true
      · rw [if_pos hregister] at hk
        obtain rfl := Option.some.inj hk
        rw [if_pos (by simp [Token.isNumeral, hregister]),
          if_pos (Or.inl (by simp [isRegisterName, hlookup, hregister]))]
        exact if_pos hregister
      · rw [if_neg hregister] at hk
        split_ifs at hk with hhex
        obtain rfl := Option.some.inj hk
        rw [if_pos (by simp [Token.isNumeral, hhex]), literal, if_neg hregister, hcheck]
        simp [isRegisterName, hregister]

/-- An operand without a number is an unknown name. -/
theorem eval_of_number_none (hnone : term.number? c.symbols kind = none) (r : RegisterClass) :
    ∃ w, term.eval c r = c.undefined w := by
  cases term with
  | value n => cases hnone
  | name w =>
    refine ⟨w, ?_⟩
    cases hlookup : c.symbols.lookup w with
    | some symbol =>
      rw [number?_of_some hlookup] at hnone
      simp [eval, hlookup, Option.map_eq_none_iff.mp hnone]
    | none =>
      rw [number?_of_none hlookup] at hnone
      rw [eval_of_lookup_none c w r hlookup]
      split_ifs at hnone with hregister hhex
      exact if_neg (by simp [Token.isNumeral, hregister, hhex])

/-- The numbers of operands that are not refused. -/
theorem number_lt (hpacked : kind.field.isSome = true) (htidy : term.Tidy)
    (hk : term.number? c.symbols kind = some k)
    (h : term.isRegisterName c.symbols ∨ k ≤ (Reading.registerClass kind).limit) :
    0 ≤ k ∧ k < 16 := by
  have heval := eval_of_number hpacked hk
  rw [if_pos h] at heval
  exact eval_lt htidy heval

theorem spills_iff (hk : term.number? c.symbols kind = some k) :
    term.Spills c.symbols kind ↔
      kind = .device ∧ term.isRegisterName c.symbols = true ∧ 7 < k := by
  have hnumber : ∀ {d : Char}, term = .name ['R', d] → c.symbols.lookup ['R', d] = none →
      Token.isHexWord [d] = true → k = Token.number 16 [d] := by
    rintro d rfl hlookup hhex
    have hregister : Token.isRegisterWord ['R', d] = true := hhex
    rw [number?_of_none hlookup, if_pos hregister] at hk
    exact (Option.some.inj hk).symm
  constructor
  · rintro ⟨hkind, d, hterm, hlookup, hhex, hlt⟩
    have hregister : Token.isRegisterWord ['R', d] = true := hhex
    refine ⟨hkind, ?_, ?_⟩
    · simp [hterm, isRegisterName, hlookup, hregister]
    · rw [hnumber hterm hlookup hhex]
      exact Int.ofNat_lt.mpr hlt
  · rintro ⟨hkind, hname, hlt⟩
    cases term with
    | value n => cases hname
    | name w =>
      simp only [isRegisterName, Bool.and_eq_true, Option.isNone_iff_eq_none] at hname
      obtain ⟨hlookup, hregister⟩ := hname
      obtain ⟨d, rfl, hhex⟩ := Token.exists_of_isRegisterWord hregister
      rw [hnumber rfl hlookup hhex] at hlt
      exact ⟨hkind, d, rfl, hlookup, hhex, Int.ofNat_lt.mp hlt⟩

/-- What is taken is in range exactly if it does not spill. -/
theorem held_iff (hpacked : kind.field.isSome = true) (htidy : term.Tidy)
    (hk : term.number? c.symbols kind = some k)
    (hheld : kind.Holds k ∨ term.Spills c.symbols kind) :
    0 ≤ k ∧ (kind.Holds k ↔ ¬ term.Spills c.symbols kind) ∧
      (k ≤ (Reading.registerClass kind).limit ↔ ¬ term.Spills c.symbols kind) := by
  rw [spills_iff hk] at hheld ⊢
  rcases hheld with hholds | hspills
  · have hle : k ≤ (Reading.registerClass kind).limit := by
      cases kind with
      | register | nonzeroRegister | device => exact hholds.2
      | none | immediate | shortAddress | longAddress => cases hpacked
    have hnot : ¬ (kind = .device ∧ term.isRegisterName c.symbols = true ∧ 7 < k) := by
      rintro ⟨rfl, _, hlt⟩
      exact absurd hholds.2 (by omega)
    exact ⟨(number_lt hpacked htidy hk (Or.inr hle)).1, iff_of_true hholds hnot,
      iff_of_true hle hnot⟩
  · obtain ⟨rfl, hname, hlt⟩ := hspills
    have hnonneg := (number_lt hpacked htidy hk (Or.inl hname)).1
    refine ⟨hnonneg, iff_of_false ?_ (not_not.mpr ⟨rfl, hname, hlt⟩),
      iff_of_false ?_ (not_not.mpr ⟨rfl, hname, hlt⟩)⟩
    · exact fun hholds => absurd hholds.2 (by omega)
    · exact Int.not_le.mpr hlt

end RegisterTerm

namespace Argument

variable {argument : Argument} {kind : OperandKind}

theorem exists_register (hfits : argument.Fits kind) (hpacked : kind.field.isSome = true) :
    ∃ term, argument = .register term := by
  cases kind with
  | register | nonzeroRegister | device =>
    cases argument with
    | register term => exact ⟨term, rfl⟩
    | none | expression => exact hfits.elim
  | none | immediate | shortAddress | longAddress => cases hpacked

theorem isSome_field {term : RegisterTerm} (hfits : (Argument.register term).Fits kind) :
    kind.field.isSome = true := by
  cases kind with
  | register | nonzeroRegister | device => rfl
  | none | immediate | shortAddress | longAddress => exact hfits.elim

end Argument

namespace Reading

variable {c : Context} {kind : OperandKind} {term : RegisterTerm} {k : Int}

/-- **An operand with a number is taken if it is in range or spills, and else refused.** -/
theorem addRegister_of_number (hpacked : kind.field.isSome = true) (htidy : term.Tidy)
    (hk : term.number? c.symbols kind = some k) (r : Reading) :
    (kind.Holds k ∨ term.Spills c.symbols kind) ∧
        addRegister c kind term r = (r.setValue { value := k }, none) ∨
      ¬ kind.Holds k ∧ ¬ term.Spills c.symbols kind ∧
        (addRegister c kind term r).2 = some (.ofKind (registerClass kind).kind) := by
  have heval := RegisterTerm.eval_of_number hpacked hk
  rw [RegisterTerm.spills_iff hk]
  unfold addRegister
  by_cases h : term.isRegisterName c.symbols ∨ k ≤ (registerClass kind).limit
  · obtain ⟨hnonneg, hlt⟩ := RegisterTerm.number_lt hpacked htidy hk h
    rw [heval, if_pos h]
    cases kind with
    | register => exact Or.inl ⟨Or.inl ⟨hnonneg, by omega⟩, rfl⟩
    | nonzeroRegister =>
      by_cases hzero : k = 0
      · refine Or.inr ⟨fun hholds => ?_, fun hspills => ?_, ?_⟩
        · exact absurd hholds.1 (by omega)
        · cases hspills.1
        · simp [hzero, registerClass, RegisterClass.kind]
      · refine Or.inl ⟨Or.inl ⟨by omega, by omega⟩, ?_⟩
        simp [hzero]
    | device =>
      refine Or.inl ⟨?_, rfl⟩
      by_cases hle : k ≤ 7
      · exact Or.inl ⟨hnonneg, hle⟩
      · exact Or.inr ⟨rfl, h.resolve_right hle, by omega⟩
    | none | immediate | shortAddress | longAddress => cases hpacked
  · -- no number beyond the class is held, and what spills has not been checked
    rw [heval, if_neg h]
    have hlarge : ¬ kind.Holds k := by
      have hlimit : ¬ k ≤ (registerClass kind).limit := fun hle => h (Or.inr hle)
      cases kind with
      | register | nonzeroRegister | device => exact fun hholds => hlimit hholds.2
      | none | immediate | shortAddress | longAddress => cases hpacked
    exact Or.inr ⟨hlarge, fun hspills => h (Or.inl hspills.2.1), rfl⟩

/-- What is taken with its number known has that number. -/
theorem number_of_addRegister {x : Reading} (hpacked : kind.field.isSome = true)
    (htidy : term.Tidy) (h : addRegister c kind term {} = (x, none))
    (hknown : x.unresolved = false) :
    term.number? c.symbols kind = some x.value ∧
      (kind.Holds x.value ∨ term.Spills c.symbols kind) := by
  cases hk : term.number? c.symbols kind with
  | none =>
    -- an unknown name is an error, or marks the statement
    obtain ⟨w, heval⟩ := RegisterTerm.eval_of_number_none hk (registerClass kind)
    unfold addRegister Context.undefined at *
    rw [heval] at h
    split_ifs at h
    · cases h
    · simp only [Bool.true_eq_false, and_false, if_false] at h
      obtain rfl := (Prod.mk.inj h).1
      cases hknown
  | some k =>
    rcases addRegister_of_number hpacked htidy hk {} with ⟨hheld, hadd⟩ | ⟨_, _, herror⟩
    · rw [hadd] at h
      obtain rfl := (Prod.mk.inj h).1
      exact ⟨rfl, hheld⟩
    · rw [h] at herror
      cases herror

end Reading

/-! ### Statements -/

/-- **An operand survives its opcode byte exactly if it is in range.** -/
theorem Instruction.decode_encode_iff {i : Instruction} (hi : i ∈ all)
    (hpacked : i.operand.field.isSome = true) {k : Int} (hk : 0 ≤ k) :
    ((i.decode (i.encode k) : Nat) : Int) = k ↔ k ≤ (Reading.registerClass i.operand).limit := by
  rw [decode_encode hi rfl (RegisterTerm.field_eq hpacked)]
  have hpos : (0 : Int) < ((Reading.registerClass i.operand).limit + 1 : Nat) := by omega
  constructor
  · intro h
    have hlt := Int.emod_lt_of_pos k hpos
    omega
  · exact fun h => Int.emod_eq_of_lt hk (by omega)

namespace Reading

variable {c : Context} {t : Text}

/-- Data behind an operand do not change whether it is known. -/
theorem unresolved_instruction {i : Instruction} {argument : Argument} {list : DataList}
    {x : Reading} (hop : (Shape.read t).operation = .instruction i (.read argument) list)
    (hx : addOperand c i.operand (.read argument) {} = (x, none))
    (hstatus : (ofText c t).status = .instruction) :
    (ofText c t).unresolved = x.unresolved := by
  obtain ⟨i', argument', list', x', bs, hop', hx', _, heq⟩ := exists_of_instruction hstatus
  rw [hop] at hop'
  cases hop'
  obtain rfl := (Prod.mk.inj (hx.symm.trans hx')).1
  rw [heq]
  rfl

/-- The error of an operand is the error of its statement. -/
theorem status_of_addRegister {i : Instruction} {term : RegisterTerm} {list : DataList}
    {d : Diagnostic}
    (hop : (Shape.read t).operation = .instruction i (.read (.register term)) list)
    (h : (addRegister c i.operand term {}).2 = some d) : (ofText c t).status = .failed d := by
  have hadd : (addOperand c i.operand (.read (.register term))
      { label := (Shape.read t).label, instruction := some i, size := i.size }).2 = some d := by
    rw [addOperand_eq c i.operand _ rfl rfl rfl]
    exact h
  unfold ofText
  rw [Shape.status_resolve_eq]
  unfold Shape.progress
  rw [hop]
  dsimp only
  unfold addInstruction
  split <;> rename_i hsplit <;> rw [hsplit] at hadd
  · obtain rfl := Option.some.inj hadd
    rfl
  · cases hadd

/-- An instruction without data is one as soon as its operand is taken. -/
theorem status_of_addRegister_none {i : Instruction} {term : RegisterTerm} {x : Reading}
    (hop : (Shape.read t).operation = .instruction i (.read (.register term)) {})
    (h : addRegister c i.operand term {} = (x, none)) : (ofText c t).status = .instruction := by
  have hoperand : addOperand c i.operand (.read (.register term)) {} = (x, none) := h
  unfold ofText
  rw [Shape.status_resolve_eq]
  unfold Shape.progress
  rw [hop]
  dsimp only
  rw [addInstruction_eq_ok_iff.mpr ⟨x, hoperand, addData_eq_ok_iff.mpr ⟨rfl, [], rfl, rfl⟩⟩]
  rfl

/-- **Which operands inside the opcode byte survive it.**  A register or device of an instruction is
the number that it is written as.  It is in range, and the first byte of the code gives it back,
exactly if it is not a device that is written as one of the registers `R8` to `RF`.  Any other
number out of range is refused as a register or as a device, and no number in range is. -/
theorem decode_packed_iff (c : Context) (t : Text) :
    (∀ i, (ofText c t).status = .instruction → (ofText c t).instruction = some i →
      i.operand.field.isSome = true → (ofText c t).unresolved = false →
      ∃ term list b data,
        (Shape.read t).operation = .instruction i (.read (.register term)) list ∧
        term.number? c.symbols i.operand = some (ofText c t).value ∧
        (ofText c t).code = b :: data ∧
        (((i.decode b.toNat : Nat) : Int) = (ofText c t).value ↔
          ¬ term.Spills c.symbols i.operand) ∧
        (i.operand.Holds (ofText c t).value ↔ ¬ term.Spills c.symbols i.operand)) ∧
    ∀ i term list k, (Shape.read t).operation = .instruction i (.read (.register term)) list →
      term.number? c.symbols i.operand = some k →
      (¬ i.operand.Holds k → ¬ term.Spills c.symbols i.operand →
        (ofText c t).status = .failed (.ofKind (registerClass i.operand).kind)) ∧
      (i.operand.Holds k → list = {} → (ofText c t).status = .instruction) := by
  have hfits := Shape.fits_read t
  have htidy := Shape.tidy_read t
  constructor
  · intro i hstatus hi hpacked hknown
    obtain ⟨i', argument, list, x, data, hop, hx, hi', hvalue, _, hcode⟩ :=
      exists_of_status_instruction hstatus
    obtain rfl := Option.some.inj (hi.symm.trans hi')
    rw [hop] at hfits htidy
    obtain ⟨term, rfl⟩ := Argument.exists_register hfits.2 hpacked
    rw [unresolved_instruction hop hx hstatus] at hknown
    obtain ⟨hnumber, hheld⟩ := number_of_addRegister hpacked htidy.1 hx hknown
    obtain ⟨hnonneg, hholds, hlimit⟩ := RegisterTerm.held_iff hpacked htidy.1 hnumber hheld
    rw [hvalue]
    refine ⟨term, list, _, _, hop, hnumber, hcode, ?_, hholds⟩
    rw [UInt8.toNat_ofNat', Nat.mod_eq_of_lt (Instruction.encode_lt hfits.1 _),
      Instruction.decode_encode_iff hfits.1 hpacked hnonneg, hlimit]
  · intro i term list k hop hnumber
    rw [hop] at hfits htidy
    have hpacked := Argument.isSome_field hfits.2
    rcases addRegister_of_number hpacked htidy.1 hnumber {} with
      ⟨hheld, hadd⟩ | ⟨hlarge, hspills, herror⟩
    · refine ⟨fun hlarge hspills => absurd hheld (not_or.mpr ⟨hlarge, hspills⟩), ?_⟩
      rintro _ rfl
      exact status_of_addRegister_none hop hadd
    · exact ⟨fun _ _ => status_of_addRegister hop herror, fun hholds => absurd hholds hlarge⟩

/-- Device 9 is no device, and as a register it is taken; the byte holds device 1. -/
theorem not_decode_packed_register_nine :
    let r := ofText {} "OUT R9".toList
    ∃ i b, r.status = .instruction ∧ r.instruction = some i ∧ i.operand = .device ∧
      r.unresolved = false ∧ r.code = [b] ∧ r.value = 9 ∧
      ¬ i.operand.Holds r.value ∧ ((i.decode b.toNat : Nat) : Int) ≠ r.value := by
  refine ⟨⟨"OUT".toList, 0x60, .device⟩, 0x61, ?_⟩
  decide +kernel

end Reading

end Cosmac
