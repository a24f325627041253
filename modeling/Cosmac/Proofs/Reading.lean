import Cosmac.Statement.Resolve
import Mathlib.Tactic.SplitIfs

/-!
# What a reading owes to the shape

A statement is read twice, in contexts that may differ in the location counter, the pass and the
symbols.  What the readings have in common is decided by the shape of the text alone:

* the label, and whether the statement is an equate (`label_resolve`, `equate_resolve`);
* what it turns out to be, an error apart (`status_resolve`), so a statement without operands that
  ends the program in one context ends it in every other (`status_resolve_eq_iff`);
* that only data and instructions take room (`size_resolve_eq_zero`).

In every context a reading without an error takes as much room as it has code
(`size_ofText`), and one with an error has no code (`code_resolve_of_failed`).
-/

namespace Cosmac

namespace Reading

/-! ### What operands and data leave alone -/

/-- The second reading has the label, the form, the instruction and the code of the first. -/
structure SameHead (r r' : Reading) : Prop where
  /-- The labels agree. -/
  label : r'.label = r.label
  /-- Both are equates, or neither is. -/
  equate : r'.equate = r.equate
  /-- The instructions agree. -/
  instruction : r'.instruction = r.instruction
  /-- The code agrees; while a statement is being read there is none. -/
  code : r'.code = r.code

theorem SameHead.refl (r : Reading) : SameHead r r := ⟨rfl, rfl, rfl, rfl⟩

theorem SameHead.trans {r₁ r₂ r₃ : Reading} (h : SameHead r₁ r₂) (h' : SameHead r₂ r₃) :
    SameHead r₁ r₃ :=
  ⟨h'.label.trans h.label, h'.equate.trans h.equate, h'.instruction.trans h.instruction,
    h'.code.trans h.code⟩

@[simp] theorem append_nil (r : Reading) : r.append [] = r := by
  simp [append]

@[simp] theorem append_append (r : Reading) (b b' : List UInt8) :
    (r.append b).append b' = r.append (b ++ b') := by
  simp [append, List.append_assoc, Nat.add_assoc]

/-- **Items only append bytes**, and neither the bytes nor the error depend on what was read
before them. -/
theorem addItems_eq_append (c : Context) (items : List Item) (r : Reading) :
    addItems c items r
      = (r.append (addItems c items {}).1.data, (addItems c items {}).2) := by
  induction items generalizing r with
  | nil => simp [addItems]
  | cons item items ih =>
    rw [addItems, addItems]
    cases h : item.bytes c with
    | error d => simp
    | ok bytes =>
      simp only
      rw [ih (r.append bytes), ih (append {} bytes), append_append]
      rfl

/-- A data list appends its bytes; its error is that of an item, or the fault behind the items. -/
theorem addData_eq (c : Context) (list : DataList) (r : Reading) :
    addData c list r
      = (r.append (addItems c list.items {}).1.data,
          (addItems c list.items {}).2.or (list.fault.map (Break.diagnostic c))) := by
  unfold addData
  rw [addItems_eq_append]
  cases (addItems c list.items {}).2 <;> rfl

/-- An expression that ends the statement only stores its value. -/
theorem addLast_cases (c : Context) (operand : Operand Expr) (fault : Option Kind) (r : Reading) :
    (addLast c operand fault r).1 = r ∨ ∃ v, (addLast c operand fault r).1 = r.setValue v := by
  unfold addLast
  split
  · exact Or.inl rfl
  · split
    · exact Or.inl rfl
    · exact Or.inr ⟨_, rfl⟩

theorem sameHead_addLast (c : Context) (operand : Operand Expr) (fault : Option Kind)
    (r : Reading) : SameHead r (addLast c operand fault r).1 := by
  rcases addLast_cases c operand fault r with h | ⟨v, h⟩ <;> rw [h]
  · exact SameHead.refl r
  · exact ⟨rfl, rfl, rfl, rfl⟩

@[simp]
theorem size_addLast (c : Context) (operand : Operand Expr) (fault : Option Kind) (r : Reading) :
    (addLast c operand fault r).1.size = r.size := by
  rcases addLast_cases c operand fault r with h | ⟨v, h⟩ <;> rw [h]
  rfl

theorem sameHead_addRegister (c : Context) (kind : OperandKind) (term : RegisterTerm)
    (r : Reading) : SameHead r (addRegister c kind term r).1 := by
  unfold addRegister
  split
  · exact SameHead.refl r
  · split <;> exact ⟨rfl, rfl, rfl, rfl⟩

theorem sameHead_addExpression (c : Context) (kind : OperandKind) (e : Expr) (r : Reading) :
    SameHead r (addExpression c kind e r).1 := by
  unfold addExpression
  split
  · exact SameHead.refl r
  · dsimp only
    split
    · split <;> exact ⟨rfl, rfl, rfl, rfl⟩
    · split <;> exact ⟨rfl, rfl, rfl, rfl⟩
    · exact ⟨rfl, rfl, rfl, rfl⟩

/-- An operand changes nothing of the head. -/
theorem sameHead_addOperand (c : Context) (kind : OperandKind) (operand : Operand Argument)
    (r : Reading) : SameHead r (addOperand c kind operand r).1 := by
  unfold addOperand
  split
  · exact SameHead.refl r
  · exact SameHead.refl r
  · exact sameHead_addRegister c kind _ r
  · exact sameHead_addExpression c kind _ r

/-- An instruction is stored before its operand is looked at, and nothing else of the head changes.
-/
theorem sameHead_addInstruction (c : Context) (i : Instruction) (operand : Operand Argument)
    (data : DataList) (r : Reading) :
    SameHead { r with instruction := some i } (addInstruction c i operand data r).1 := by
  have hoperand := sameHead_addOperand c i.operand operand
    { r with instruction := some i, size := i.size }
  have hstart : SameHead { r with instruction := some i }
      { r with instruction := some i, size := i.size } := ⟨rfl, rfl, rfl, rfl⟩
  unfold addInstruction
  split
  · rename_i h
    rw [h] at hoperand
    exact hstart.trans hoperand
  · rename_i h
    rw [h] at hoperand
    rw [addData_eq]
    exact (hstart.trans hoperand).trans ⟨rfl, rfl, rfl, rfl⟩

end Reading

/-! ### Status, label and room of a statement -/

namespace Operation

/-- What a statement with this operation turns out to be, an error apart. -/
def status : Operation → Status
  | .empty | .malformed _ => .nop
  | .data _ => .data
  | .equate _ _ => .equate
  | .origin _ _ => .origin
  | .page => .page
  | .finish => .finish
  | .instruction _ _ _ => .instruction

/-- The operation is that of an equate. -/
def isEquate : Operation → Bool
  | .equate _ _ => true
  | _ => false

/-- The instruction, if the operation is one. -/
def instruction? : Operation → Option Instruction
  | .instruction i _ _ => some i
  | _ => none

/-- The operation moves the location counter to an address of its own. -/
def isOrigin : Operation → Bool
  | .origin _ _ => true
  | _ => false

/-- The operation can take room. -/
def takesRoom : Operation → Bool
  | .data _ | .instruction _ _ _ => true
  | _ => false

end Operation

namespace Shape

/-- What is resolved of a shape before it is settled. -/
def progress (c : Context) (s : Shape) : Progress :=
  let r : Reading := { label := s.label }
  match s.operation with
  | .data list => r.addData c list
  | .equate operand fault => { r with equate := true }.addLast c operand fault
  | .origin operand fault => r.addLast c operand fault
  | .instruction i operand data => r.addInstruction c i operand data
  | .malformed d => (r, some d)
  | .empty | .page | .finish => (r, none)

/-- A statement is settled at the end, whatever it is. -/
theorem resolve_eq_settle (c : Context) (s : Shape) :
    s.resolve c = Reading.settle s.operation.status (s.progress c) := by
  unfold resolve progress Operation.status
  cases s.operation <;> rfl

/-- **The head of a reading is told by the shape**, before any operand is looked at. -/
theorem sameHead_progress (c : Context) (s : Shape) :
    Reading.SameHead
      { label := s.label, equate := s.operation.isEquate, instruction := s.operation.instruction? }
      (s.progress c).1 := by
  unfold progress Operation.isEquate Operation.instruction?
  cases s.operation with
  | data list =>
    simp only
    rw [Reading.addData_eq]
    exact ⟨rfl, rfl, rfl, rfl⟩
  | equate operand fault => exact Reading.sameHead_addLast c operand fault _
  | origin operand fault => exact Reading.sameHead_addLast c operand fault _
  | instruction i operand data =>
    exact Reading.sameHead_addInstruction c i operand data { label := s.label }
  | empty => exact Reading.SameHead.refl _
  | page => exact Reading.SameHead.refl _
  | finish => exact Reading.SameHead.refl _
  | malformed d => exact Reading.SameHead.refl _

end Shape

namespace Reading

@[simp]
theorem label_settle (status : Status) (p : Progress) : (settle status p).label = p.1.label := by
  obtain ⟨r, d⟩ := p
  cases d <;> rfl

@[simp] theorem equate_settle (status : Status) (p : Progress) :
    (settle status p).equate = p.1.equate := by
  obtain ⟨r, d⟩ := p
  cases d <;> rfl

@[simp] theorem instruction_settle (status : Status) (p : Progress) :
    (settle status p).instruction = p.1.instruction := by
  obtain ⟨r, d⟩ := p
  cases d <;> rfl

@[simp]
theorem size_settle (status : Status) (p : Progress) : (settle status p).size = p.1.size := by
  obtain ⟨r, d⟩ := p
  cases d <;> rfl

/-- An error takes the place of the status. -/
@[simp] theorem status_settle (status : Status) (p : Progress) :
    (settle status p).status = p.2.elim status .failed := by
  obtain ⟨r, d⟩ := p
  cases d <;> rfl

end Reading

namespace Shape

@[simp] theorem label_resolve (c : Context) (s : Shape) : (s.resolve c).label = s.label := by
  rw [resolve_eq_settle, Reading.label_settle]
  exact (sameHead_progress c s).label

@[simp] theorem equate_resolve (c : Context) (s : Shape) :
    (s.resolve c).equate = s.operation.isEquate := by
  rw [resolve_eq_settle, Reading.equate_settle]
  exact (sameHead_progress c s).equate

@[simp] theorem instruction_resolve (c : Context) (s : Shape) :
    (s.resolve c).instruction = s.operation.instruction? := by
  rw [resolve_eq_settle, Reading.instruction_settle]
  exact (sameHead_progress c s).instruction

theorem status_resolve_eq (c : Context) (s : Shape) :
    (s.resolve c).status = (s.progress c).2.elim s.operation.status .failed := by
  rw [resolve_eq_settle, Reading.status_settle]

/-- The error of a statement is the one at which resolving it ended. -/
@[simp] theorem error_resolve (c : Context) (s : Shape) :
    (s.resolve c).status.error? = (s.progress c).2 := by
  rw [status_resolve_eq]
  cases (s.progress c).2 with
  | none => cases s.operation <;> rfl
  | some d => rfl

/-- **Only an error can keep a statement from being what its text says.** -/
theorem status_resolve (c : Context) (s : Shape) :
    (s.resolve c).status = s.operation.status ∨ ∃ d, (s.resolve c).status = .failed d := by
  rw [status_resolve_eq]
  cases (s.progress c).2 with
  | none => exact Or.inl rfl
  | some d => exact Or.inr ⟨d, rfl⟩

/-- **An operation without operands is told by the text**, whatever the context. -/
theorem status_resolve_eq_iff (c : Context) (s : Shape) {o : Operation}
    (hbare : o = .empty ∨ o = .page ∨ o = .finish) :
    (s.resolve c).status = o.status ↔ s.operation = o := by
  constructor
  · intro h
    have hstatus := status_resolve c s
    rw [h] at hstatus
    cases hop : s.operation with
    | malformed d =>
      -- this is an error, though the status of the operation is that of an empty statement
      rw [status_resolve_eq] at h
      unfold progress at h
      rw [hop] at h
      rcases hbare with rfl | rfl | rfl <;> cases h
    | _ => rcases hbare with rfl | rfl | rfl <;> simp_all [Operation.status]
  · intro h
    unfold resolve
    rw [h]
    rcases hbare with rfl | rfl | rfl <;> rfl

theorem status_resolve_eq_finish_iff (c : Context) (s : Shape) :
    (s.resolve c).status = .finish ↔ s.operation = .finish :=
  status_resolve_eq_iff c s (Or.inr (Or.inr rfl))

theorem status_resolve_page (c : Context) (s : Shape) (h : s.operation = .page) :
    (s.resolve c).status = .page :=
  (status_resolve_eq_iff c s (Or.inr (Or.inl rfl))).mpr h

/-- Only `ORG` ends as a new location counter. -/
theorem isOrigin_of_status_resolve (c : Context) (s : Shape)
    (h : (s.resolve c).status = .origin) : s.operation.isOrigin = true := by
  rcases status_resolve c s with h' | ⟨d, h'⟩
  · rw [h] at h'
    revert h'
    cases s.operation <;> simp [Operation.status, Operation.isOrigin]
  · rw [h] at h'
    cases h'

theorem isEquate_of_status_resolve (c : Context) (s : Shape)
    (h : (s.resolve c).status = .equate) : s.operation.isEquate = true := by
  rcases status_resolve c s with h' | ⟨d, h'⟩
  · rw [h] at h'
    revert h'
    cases s.operation <;> simp [Operation.status, Operation.isEquate]
  · rw [h] at h'
    cases h'

/-- **Only data and instructions take room.** -/
theorem size_resolve_eq_zero (c : Context) (s : Shape) (h : s.operation.takesRoom = false) :
    (s.resolve c).size = 0 := by
  rw [resolve_eq_settle, Reading.size_settle]
  unfold progress
  revert h
  cases s.operation with
  | data list => simp [Operation.takesRoom]
  | instruction i operand data => simp [Operation.takesRoom]
  | equate operand fault => exact fun _ => Reading.size_addLast c operand fault _
  | origin operand fault => exact fun _ => Reading.size_addLast c operand fault _
  | empty => exact fun _ => rfl
  | page => exact fun _ => rfl
  | finish => exact fun _ => rfl
  | malformed d => exact fun _ => rfl

/-- A statement in error has no code. -/
theorem code_resolve_of_failed (c : Context) (s : Shape) (d : Diagnostic)
    (h : (s.resolve c).status = .failed d) : (s.resolve c).code = [] := by
  have hcode := (sameHead_progress c s).code
  rw [status_resolve_eq] at h
  rw [resolve_eq_settle]
  generalize s.progress c = p at h hcode
  obtain ⟨r, e⟩ := p
  cases e with
  | none =>
    -- no operation has an error as its status
    revert h
    cases s.operation <;> simp [Operation.status]
  | some e => exact hcode

end Shape

/-! ### Code and room -/

/-- The operand is of the form that instructions of the kind take. -/
def Argument.Fits : OperandKind → Argument → Prop
  | .none, .none => True
  | .register, .register _ | .nonzeroRegister, .register _ | .device, .register _ => True
  | .immediate, .expression _ | .shortAddress, .expression _ | .longAddress, .expression _ => True
  | _, _ => False

/-- An instruction is one of the table, and its operand is read in the form that it takes. -/
def Operation.Fits : Operation → Prop
  | .instruction i (.read a) _ => i ∈ Instruction.all ∧ a.Fits i.operand
  | _ => True

theorem Argument.eq_register_of_read {t rest : Text} {a : Argument}
    (h : Argument.readRegister t = (.read a, rest)) : ∃ term, a = .register term := by
  unfold Argument.readRegister at h
  split at h
  · cases h
  · obtain ⟨rfl, _⟩ := h
    exact ⟨_, rfl⟩

theorem Argument.eq_expression_of_read {t rest : Text} {a : Argument}
    (h : Argument.readExpression t = (.read a, rest)) : ∃ e, a = .expression e := by
  unfold Argument.readExpression at h
  split at h
  · cases h
  · obtain ⟨rfl, _⟩ := h
    exact ⟨_, rfl⟩

/-- An operand is read in the form that the instruction takes. -/
theorem Argument.fits_read {kind : OperandKind} {t rest : Text} {a : Argument}
    (h : Argument.read kind t = (.read a, rest)) : a.Fits kind := by
  cases kind with
  | none =>
    obtain ⟨rfl, _⟩ := h
    trivial
  | register | nonzeroRegister | device =>
    obtain ⟨term, rfl⟩ := eq_register_of_read h
    trivial
  | immediate | shortAddress | longAddress =>
    obtain ⟨e, rfl⟩ := eq_expression_of_read h
    trivial

theorem Operation.fits_readLast {make : Operand Expr → Option Kind → Operation} {t : Text}
    (hmake : ∀ operand fault, (make operand fault).Fits) : (Operation.readLast make t).Fits := by
  unfold Operation.readLast
  split <;> exact hmake _ _

theorem Operation.fits_readBare {operation : Operation} {t : Text} (h : operation.Fits) :
    (Operation.readBare operation t).Fits := by
  unfold Operation.readBare
  split
  · exact h
  · trivial

theorem Operation.fits_read (name t : Text) : (Operation.read name t).Fits := by
  unfold Operation.read
  split_ifs
  · trivial
  · exact Operation.fits_readLast fun _ _ => trivial
  · exact Operation.fits_readBare trivial
  · exact Operation.fits_readBare trivial
  · split
    · trivial
    · rename_i i hmnemonic
      unfold Operation.readInstruction
      split
      · trivial
      · rename_i h
        exact ⟨List.mem_of_find?_eq_some hmnemonic, Argument.fits_read h⟩

theorem Shape.fits_readLabelled (label t : Text) : (Shape.readLabelled label t).operation.Fits := by
  unfold Shape.readLabelled
  split
  · trivial
  · trivial
  · split
    · trivial
    · split
      · trivial
      · exact Operation.fits_read _ _

theorem Shape.fits_readNamed (t : Text) : (Shape.readNamed t).operation.Fits := by
  unfold Shape.readNamed
  split
  · trivial
  · exact Shape.fits_readLabelled _ _
  · split
    · exact Operation.fits_readLast fun _ _ => trivial
    · exact Operation.fits_read _ _

/-- An instruction is one of the table, and its operand is read in the form that it takes. -/
theorem Shape.fits_read (t : Text) : (Shape.read t).operation.Fits := by
  unfold Shape.read
  split
  · trivial
  · trivial
  · exact Shape.fits_readNamed _

namespace Reading

theorem addRegister_eq_ok {c : Context} {kind : OperandKind} {term : RegisterTerm}
    {r r' : Reading} (h : addRegister c kind term r = (r', none)) : ∃ v, r' = r.setValue v := by
  unfold addRegister at h
  split at h
  · cases h
  · split_ifs at h
    · cases h
    · obtain ⟨rfl, _⟩ := h
      exact ⟨_, rfl⟩

/-- The room of an operand behind the opcode: two bytes for a long address, one for the others,
but two and a byte of extra size for an immediate address. -/
theorem addExpression_eq_ok {c : Context} {kind : OperandKind} {e : Expr} {r r' : Reading}
    (h : addExpression c kind e r = (r', none)) :
    ∃ v, e.eval c = .ok v ∧
      (r' = { r.setValue v with operandSize := 1 } ∧
          (kind = .immediate ∧ v.addressOf = false ∨ kind = .shortAddress) ∨
        r' = { r.setValue v with operandSize := 2, size := r.size + 1 } ∧
          kind = .immediate ∧ v.addressOf = true ∨
        r' = { r.setValue v with operandSize := 2 } ∧
          kind ≠ .immediate ∧ kind ≠ .shortAddress) := by
  unfold addExpression at h
  split at h
  · cases h
  · rename_i v hv
    refine ⟨v, hv, ?_⟩
    dsimp only at h
    split at h
    · split_ifs at h with haddress
      · obtain ⟨rfl, _⟩ := h
        exact Or.inr (Or.inl ⟨rfl, rfl, haddress⟩)
      · obtain ⟨rfl, _⟩ := h
        exact Or.inl ⟨rfl, Or.inl ⟨rfl, Bool.not_eq_true _ ▸ haddress⟩⟩
    · split_ifs at h
      · cases h
      · obtain ⟨rfl, _⟩ := h
        exact Or.inl ⟨rfl, Or.inr rfl⟩
    · rename_i hne hne'
      obtain ⟨rfl, _⟩ := h
      exact Or.inr (Or.inr ⟨rfl, hne, hne'⟩)

/-- The reading of an instruction takes room for its opcode, its operand and its data. -/
structure HasRoom (i : Instruction) (r : Reading) : Prop where
  /-- The instruction is stored. -/
  instruction : r.instruction = some i
  /-- There is a byte for the opcode. -/
  size : r.size = 1 + r.operandBytes.length + r.data.length

/-- **The operand of an instruction has the room that its size counts**, whatever its kind. -/
theorem hasRoom_addOperand {c : Context} {i : Instruction} {a : Argument} {r r' : Reading}
    (hfits : a.Fits i.operand) (hoperand : r.operandSize = 0) (hdata : r.data = [])
    (h : addOperand c i.operand (.read a) { r with instruction := some i, size := i.size }
      = (r', none)) : HasRoom i r' := by
  obtain ⟨mnemonic, opcode, kind⟩ := i
  cases a with
  | none =>
    cases kind with
    | none =>
      obtain ⟨rfl, _⟩ := h
      exact ⟨rfl, by simp [operandBytes, hoperand, hdata, Instruction.size, OperandKind.size]⟩
    | _ => exact hfits.elim
  | register term =>
    obtain ⟨v, rfl⟩ := addRegister_eq_ok h
    refine ⟨rfl, ?_⟩
    cases kind with
    | register | nonzeroRegister | device =>
      simp [operandBytes, setValue, hoperand, hdata, Instruction.size, OperandKind.size]
    | _ => exact hfits.elim
  | expression e =>
    obtain ⟨v, _, h | h | h⟩ := addExpression_eq_ok h
    · -- one byte, for an immediate value and for a short branch
      obtain ⟨rfl, ⟨rfl, _⟩ | rfl⟩ := h <;>
        exact ⟨rfl, by simp [operandBytes, setValue, hdata, Instruction.size, OperandKind.size]⟩
    · -- the extra byte of an immediate address is counted in the size
      obtain ⟨rfl, rfl, _⟩ := h
      exact ⟨rfl, by
        simp [operandBytes, wordBytes, setValue, hdata, Instruction.size, OperandKind.size]⟩
    · -- two bytes, for a long branch
      obtain ⟨rfl, hne, hne'⟩ := h
      refine ⟨rfl, ?_⟩
      cases kind with
      | longAddress =>
        simp [operandBytes, wordBytes, setValue, hdata, Instruction.size, OperandKind.size]
      | immediate => exact absurd rfl hne
      | shortAddress => exact absurd rfl hne'
      | _ => exact hfits.elim

theorem hasRoom_append {i : Instruction} {r : Reading} (h : HasRoom i r) (bytes : List UInt8) :
    HasRoom i (r.append bytes) := by
  refine ⟨h.instruction, ?_⟩
  have hsize := h.size
  show r.size + bytes.length = 1 + r.operandBytes.length + (r.data ++ bytes).length
  rw [List.length_append]
  omega

/-- With its operand and the data behind it, an instruction has the room of all its bytes. -/
theorem hasRoom_addInstruction {c : Context} {i : Instruction} {operand : Operand Argument}
    {data : DataList} {r r' : Reading} (hfits : (Operation.instruction i operand data).Fits)
    (hoperand : r.operandSize = 0) (hdata : r.data = [])
    (h : addInstruction c i operand data r = (r', none)) : HasRoom i r' := by
  unfold addInstruction at h
  split at h
  · cases h
  · rename_i r₁ h₁
    rw [addData_eq] at h
    obtain rfl := (Prod.mk.inj h).1
    cases operand with
    | broken b => cases h₁
    | read a => exact hasRoom_append (hasRoom_addOperand hfits.2 hoperand hdata h₁) _

end Reading

/-- What takes no room has no code. -/
theorem Shape.code_resolve_eq_nil (c : Context) (s : Shape) (h : s.operation.takesRoom = false) :
    (s.resolve c).code = [] := by
  have hcode := (sameHead_progress c s).code
  rw [resolve_eq_settle]
  generalize s.progress c = p at hcode
  obtain ⟨r, e⟩ := p
  cases e with
  | some d => exact hcode
  | none =>
    revert h
    cases s.operation <;>
      simp [Operation.takesRoom, Reading.settle, Reading.encode, Operation.status]

/-- Without an error, a statement of any shape has as much code as room. -/
theorem Shape.size_resolve (c : Context) (s : Shape) (hfits : s.operation.Fits)
    (h : (s.resolve c).status.error? = none) :
    (s.resolve c).size = (s.resolve c).code.length := by
  by_cases hroom : s.operation.takesRoom = false
  · rw [size_resolve_eq_zero c s hroom, code_resolve_eq_nil c s hroom]
    rfl
  -- what is left is data and instructions, and the code is what `encode` makes of the progress
  rw [status_resolve_eq] at h
  rw [resolve_eq_settle]
  cases hp : s.progress c with
  | mk r e =>
  rw [hp] at h
  cases e with
  | some d => cases h
  | none =>
  show r.size = (Reading.encode { r with status := s.operation.status }).length
  unfold progress at hp
  cases hop : s.operation with
  | data list =>
    rw [hop] at hp
    simp only at hp
    rw [Reading.addData_eq] at hp
    obtain rfl := (Prod.mk.inj hp).1
    simp [Reading.append, Reading.encode, Operation.status]
  | instruction i operand data =>
    rw [hop] at hp hfits
    obtain ⟨hi, hsize⟩ := Reading.hasRoom_addInstruction hfits rfl rfl hp
    simp only [Reading.encode, Operation.status, hi, List.cons_append, List.length_cons,
      List.length_append]
    rw [hsize]
    show _ = r.operandBytes.length + r.data.length + 1
    omega
  | equate operand fault => exact absurd (by rw [hop]; rfl) hroom
  | origin operand fault => exact absurd (by rw [hop]; rfl) hroom
  | empty => exact absurd (by rw [hop]; rfl) hroom
  | page => exact absurd (by rw [hop]; rfl) hroom
  | finish => exact absurd (by rw [hop]; rfl) hroom
  | malformed d => exact absurd (by rw [hop]; rfl) hroom

/-- **Without an error, code and room are equally long.** -/
theorem Reading.size_ofText (c : Context) (t : Text)
    (h : (Reading.ofText c t).status.error? = none) :
    (Reading.ofText c t).size = (Reading.ofText c t).code.length :=
  Shape.size_resolve c (Shape.read t) (Shape.fits_read t) h

/-! ### The first pass -/

/-- **In the first pass every expression has a value.** -/
theorem Expr.eval_first {c : Context} (h : c.pass.isFinal = false) (e : Expr) :
    ∃ v, e.eval c = .ok v := by
  -- only a name without a value can be an error, and in the first pass it counts as 0
  have hundefined : ∀ n, ∃ v, c.undefined n = .ok v := by
    intro n
    unfold Context.undefined
    rw [h]
    exact ⟨_, rfl⟩
  have hname : ∀ n, ∃ v, c.nameValue n = .ok v := by
    intro n
    unfold Context.nameValue
    split
    · split
      · exact ⟨_, rfl⟩
      · exact hundefined n
    · split
      · exact ⟨_, rfl⟩
      · exact hundefined n
  have hterm : ∃ v, e.term.eval c = .ok v := by
    cases e.term with
    | name n => exact hname n
    | _ => exact ⟨_, rfl⟩
  obtain ⟨v, hv⟩ := hterm
  unfold Expr.eval
  rw [hv]
  exact ⟨_, rfl⟩

/-- An origin without an error in some context has none in the first pass. -/
theorem Shape.status_resolve_origin_first {c c' : Context} (s : Shape)
    (hfirst : c.pass.isFinal = false) (h : (s.resolve c').status = .origin) :
    (s.resolve c).status = .origin := by
  have horigin := isOrigin_of_status_resolve c' s h
  rw [status_resolve_eq] at h ⊢
  unfold progress at h ⊢
  cases hop : s.operation with
  | origin operand fault =>
    rw [hop] at h
    cases operand with
    | broken b => cases h
    | read e =>
      obtain ⟨v, hv⟩ := Expr.eval_first hfirst e
      simp only [Reading.addLast] at h
      simp only [Reading.addLast, hv]
      -- a fault behind the expression would be one in the other context too
      cases fault with
      | none => rfl
      | some kind =>
        cases he : e.eval c' with
        | error d => simp [he] at h
        | ok v' => simp [he] at h
  | _ =>
    rw [hop] at horigin
    cases horigin

end Cosmac
