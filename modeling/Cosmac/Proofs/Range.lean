import Cosmac.Proofs.Stability

/-!
# Values are words

Whatever an expression stands for is a word, provided that the location counter and the symbols are
(`Expr.isWord_eval`).  A register is below 16 in any case (`RegisterTerm.eval_lt`).

Both passes keep the location counter and the symbols in range, so every statement of a program has
a word as its value (`Assembly.isWord_passes`), and a symbol holds the value of its definition as
it is.
-/

namespace Cosmac

/-- The integer is a word. -/
def IsWord (n : Int) : Prop := 0 ≤ n ∧ n < 0x10000

instance (n : Int) : Decidable (IsWord n) := inferInstanceAs (Decidable (_ ∧ _))

/-- A word is an integer that the location counter leaves as it is. -/
theorem isWord_iff {n : Int} : IsWord n ↔ word n = n := by
  unfold IsWord word
  omega

theorem isWord_word (n : Int) : IsWord (word n) := isWord_iff.mpr (word_word n)

theorem IsWord.exists_nat {n : Int} (h : IsWord n) : ∃ k : Nat, n = k ∧ k < 0x10000 := by
  obtain ⟨k, rfl⟩ := Int.eq_ofNat_of_zero_le h.1
  exact ⟨k, rfl, Int.ofNat_lt.mp h.2⟩

theorem isWord_zero : IsWord 0 := by decide

theorem isWord_natCast {n : Nat} (h : n < 0x10000) : IsWord n := ⟨by omega, by omega⟩

/-- The integer is a byte. -/
def IsByte (n : Int) : Prop := 0 ≤ n ∧ n < 0x100

instance (n : Int) : Decidable (IsByte n) := inferInstanceAs (Decidable (_ ∧ _))

theorem IsByte.isWord {n : Int} (h : IsByte n) : IsWord n := ⟨h.1, Int.lt_trans h.2 (by decide)⟩

theorem isByte_lowByte (n : Int) : IsByte (lowByte n) :=
  ⟨Int.emod_nonneg n (by decide), Int.emod_lt_of_pos n (by decide)⟩

theorem isByte_highByte (n : Int) : IsByte (highByte n) := isByte_lowByte (n / 0x100)

/-- The byte of an integer is its low byte. -/
@[simp] theorem toNat_byte (n : Int) : ((byte n).toNat : Int) = lowByte n := by
  obtain ⟨hnonneg, hlt⟩ := isByte_lowByte n
  unfold byte
  rw [UInt8.toNat_ofNat', Nat.mod_eq_of_lt (by omega), Int.toNat_of_nonneg hnonneg]

/-- Every value in the table is a word. -/
def SymbolTable.InRange (t : SymbolTable) : Prop := ∀ s ∈ t.symbols, ∀ v ∈ s.value, IsWord v

instance (t : SymbolTable) : Decidable t.InRange :=
  inferInstanceAs (Decidable (∀ s ∈ t.symbols, _))

/-- The location counter and every value in the table are words. -/
structure Context.InRange (c : Context) : Prop where
  /-- The location counter. -/
  pc : IsWord c.pc
  /-- The symbols. -/
  symbols : c.symbols.InRange

/-! ### Expressions -/

section Eval

variable {c : Context} {v : Value}

theorem SymbolTable.InRange.valueOf {t : SymbolTable} (h : t.InRange) {n : Text} {v : Int}
    (hv : t.valueOf n = some v) : IsWord v := by
  obtain ⟨symbol, hsymbol, hvalue⟩ := SymbolTable.valueOf_eq_some_iff.mp hv
  exact h symbol (List.mem_of_find?_eq_some hsymbol) v hvalue

theorem Context.value_undefined {n : Text} (h : c.undefined n = .ok v) : v.value = 0 := by
  unfold Context.undefined at h
  split_ifs at h
  obtain rfl := Except.ok.inj h
  rfl

/-- A name stands for a word: a value in the table, four digits at most, or 0. -/
theorem Context.isWord_nameValue (hc : c.symbols.InRange) {n : Text} (hn : n.IsName)
    (hv : c.nameValue n = .ok v) : IsWord v.value := by
  rcases c.nameValue_cases n with ⟨w, hw, heval⟩ | ⟨_, hhex, heval⟩ | ⟨_, _, heval⟩ <;>
    rw [heval] at hv
  · obtain rfl := Except.ok.inj hv
    exact hc.valueOf hw
  · obtain rfl := Except.ok.inj hv
    exact isWord_natCast ((Token.isHexWord_of_isName hn).mp hhex).number_lt
  · rw [Context.value_undefined hv]
    exact isWord_zero

theorem Term.isWord_eval (hc : c.InRange) {term : Term} (htidy : term.Tidy)
    (hv : term.eval c = .ok v) : IsWord v.value := by
  cases term with
  | here =>
    obtain rfl := Except.ok.inj hv
    exact hc.pc
  | constant n =>
    obtain rfl := Except.ok.inj hv
    exact isWord_natCast htidy
  | character b =>
    obtain rfl := Except.ok.inj hv
    exact isWord_natCast (Nat.lt_trans htidy (by decide))
  | name n => exact Context.isWord_nameValue hc.symbols htidy hv

/-- The bytes of a word are words. -/
theorem Selector.isWord_select (h : IsWord v.value) (selector : Selector) :
    IsWord (selector.select v).value := by
  cases selector with
  | plain => exact h
  | address => exact h
  | low => exact (isByte_lowByte v.value).isWord
  | high => exact (isByte_highByte v.value).isWord

/-- **An expression stands for a word.** -/
theorem Expr.isWord_eval (hc : c.InRange) {e : Expr} (htidy : e.term.Tidy)
    (hv : e.eval c = .ok v) : IsWord v.value := by
  unfold Expr.eval at hv
  split at hv
  · cases hv
  · rename_i w hw
    obtain rfl := Except.ok.inj hv
    apply Selector.isWord_select
    cases e.offset with
    | none => exact Term.isWord_eval hc htidy hw
    | some amount =>
      -- with an offset the sum is brought back into range
      exact isWord_word _

/-! ### Registers -/

theorem RegisterClass.check_eq_ok {r : RegisterClass} {n : Nat} (h : r.check n = .ok v) :
    v.value = n ∧ n ≤ r.limit := by
  unfold RegisterClass.check at h
  split_ifs at h with hn
  obtain rfl := Except.ok.inj h
  exact ⟨rfl, Nat.le_of_not_lt hn⟩

theorem RegisterClass.limit_lt (r : RegisterClass) : r.limit < 16 := by
  cases r <;> decide

/-- **A register is below 16**, and so is a device, which can be written as a register. -/
theorem RegisterTerm.eval_lt {r : RegisterClass} {term : RegisterTerm} (htidy : term.Tidy)
    (hv : term.eval c r = .ok v) : 0 ≤ v.value ∧ v.value < 16 := by
  have hlimit := r.limit_lt
  have hcheck : ∀ {n : Nat}, r.check n = .ok v → 0 ≤ v.value ∧ v.value < 16 := by
    intro n h
    obtain ⟨hvalue, hle⟩ := RegisterClass.check_eq_ok h
    omega
  have hundefined : ∀ {n : Text}, c.undefined n = .ok v → 0 ≤ v.value ∧ v.value < 16 := by
    intro n h
    rw [Context.value_undefined h]
    decide
  cases term with
  | value n => exact hcheck hv
  | name n =>
    cases hlookup : c.symbols.lookup n with
    | some symbol =>
      unfold RegisterTerm.eval at hv
      simp only [hlookup] at hv
      split at hv
      · -- only as many bits of a symbol count as the operand has
        rename_i w _
        obtain rfl := Except.ok.inj hv
        have hnonneg := Int.emod_nonneg w (b := (r.limit : Int) + 1) (by omega)
        have hlt := Int.emod_lt_of_pos w (b := (r.limit : Int) + 1) (by omega)
        exact ⟨hnonneg, by dsimp only; omega⟩
      · exact hundefined hv
    | none =>
      rw [RegisterTerm.eval_of_lookup_none c n r hlookup] at hv
      split_ifs at hv
      · unfold RegisterTerm.literal at hv
        split_ifs at hv with hword
        · -- the name of a register has one digit behind its letter
          obtain rfl := Except.ok.inj hv
          obtain ⟨digit, rfl, hhex⟩ := Token.exists_of_isRegisterWord hword
          have hname : Text.IsName [digit] := fun d hd => htidy d (List.mem_cons_of_mem _ hd)
          have hdigit : Token.number 16 [digit] < 16 := Token.number_lt fun d hd =>
            Token.digitValue_of_isHexDigit
              (List.all_eq_true.mp ((Token.isHexWord_of_isName hname).mp hhex).2.2 d hd)
          exact ⟨Int.natCast_nonneg _, Int.ofNat_lt.mpr hdigit⟩
        · exact hcheck hv
      · exact hundefined hv

/-! ### Statements -/

namespace Reading

theorem isWord_addLast (hc : c.InRange) {operand : Operand Expr}
    (htidy : operand.Tidy fun e => e.term.Tidy) (fault : Option Kind) {r : Reading}
    (hr : IsWord r.value) : IsWord (addLast c operand fault r).1.value := by
  cases operand with
  | broken b => exact hr
  | read e =>
    unfold addLast
    dsimp only
    cases hv : e.eval c with
    | error d => exact hr
    | ok v => exact Expr.isWord_eval hc htidy hv

theorem isWord_addRegister {kind : OperandKind} {term : RegisterTerm} (htidy : term.Tidy)
    {r : Reading} (hr : IsWord r.value) : IsWord (addRegister c kind term r).1.value := by
  unfold addRegister
  cases hv : term.eval c (registerClass kind) with
  | error d => simpa only [hv] using hr
  | ok v =>
    obtain ⟨hnonneg, hlt⟩ := RegisterTerm.eval_lt htidy hv
    have hword : IsWord v.value := ⟨hnonneg, by omega⟩
    dsimp only
    split_ifs <;> exact hword

theorem isWord_addExpression (hc : c.InRange) {kind : OperandKind} {e : Expr}
    (htidy : e.term.Tidy) {r : Reading} (hr : IsWord r.value) :
    IsWord (addExpression c kind e r).1.value := by
  unfold addExpression
  cases hv : e.eval c with
  | error d => simpa only [hv] using hr
  | ok v =>
    have hword := Expr.isWord_eval hc htidy hv
    dsimp only
    split
    · split_ifs <;> exact hword
    · split_ifs <;> exact hword
    · exact hword

/-- An operand has a word as its value, and without one the value stays. -/
theorem isWord_addOperand (hc : c.InRange) {kind : OperandKind} {operand : Operand Argument}
    (htidy : operand.Tidy Argument.Tidy) {r : Reading} (hr : IsWord r.value) :
    IsWord (addOperand c kind operand r).1.value := by
  unfold addOperand
  split
  · exact hr
  · exact hr
  · exact isWord_addRegister htidy hr
  · exact isWord_addExpression hc htidy hr

theorem isWord_addInstruction (hc : c.InRange) {i : Instruction} {operand : Operand Argument}
    (htidy : operand.Tidy Argument.Tidy) (list : DataList) {r : Reading} (hr : IsWord r.value) :
    IsWord (addInstruction c i operand list r).1.value := by
  have hoperand : IsWord (addOperand c i.operand operand
      { r with instruction := some i, size := i.size }).1.value := isWord_addOperand hc htidy hr
  unfold addInstruction
  split <;> rename_i heq <;> rw [heq] at hoperand
  · exact hoperand
  · rw [addData_eq]
    exact hoperand

@[simp]
theorem value_settle (status : Status) (p : Progress) : (settle status p).value = p.1.value := by
  obtain ⟨r, d⟩ := p
  cases d <;> rfl

/-- **A statement has a word as its value**, whatever it is. -/
theorem isWord_ofText (hc : c.InRange) (t : Text) : IsWord (ofText c t).value := by
  have htidy := Shape.tidy_read t
  unfold ofText
  rw [Shape.resolve_eq_settle, value_settle]
  unfold Shape.progress
  cases hop : (Shape.read t).operation with
  | data list =>
    dsimp only
    rw [addData_eq]
    exact isWord_zero
  | equate operand fault =>
    rw [hop] at htidy
    exact isWord_addLast hc htidy.1 fault isWord_zero
  | origin operand fault =>
    rw [hop] at htidy
    exact isWord_addLast hc htidy.1 fault isWord_zero
  | instruction i operand list =>
    rw [hop] at htidy
    exact isWord_addInstruction hc htidy.1 list isWord_zero
  | empty | page | finish | malformed => exact isWord_zero

end Reading

end Eval

/-! ### Both passes -/

namespace SymbolTable

variable {t : SymbolTable}

theorem InRange.modify (h : t.InRange) (name : Text) {f : Symbol → Symbol}
    (hf : ∀ s ∈ t.symbols, ∀ v ∈ (f s).value, IsWord v) : (t.modify name f).InRange := by
  intro s hs
  obtain ⟨s', hs', rfl⟩ := List.mem_map.mp hs
  split_ifs
  · exact hf s' hs'
  · exact h s' hs'

theorem InRange.insert (h : t.InRange) (name : Text) (value : Option Int) (index : Int)
    (line : Option Int) : (t.insert (newSymbol name value index line)).InRange := by
  intro s hs
  rcases List.mem_append.mp hs with hs | hs
  · exact h s hs
  · obtain rfl := List.mem_singleton.mp hs
    intro v hv
    obtain ⟨w, _, rfl⟩ := Option.map_eq_some_iff.mp hv
    exact isWord_word w

/-- A definition stores a word. -/
theorem InRange.bind (h : t.InRange) (name : Text) (value : Option Int) (index : Int)
    (line : Option Int) : (t.bind name value index line).InRange := by
  unfold SymbolTable.bind
  split
  · exact h.modify name h
  · exact h.insert name value index line

end SymbolTable

theorem Context.isWord_pc_move {c : Context} (h : IsWord c.pc) (s : Statement) :
    IsWord (c.move s).pc := by
  unfold Context.move
  split
  · exact isWord_word _
  · exact isWord_iff.mpr (word_nextPage _)
  · exact h
  · exact isWord_word _

theorem Context.InRange.bindLabel {c : Context} (h : c.InRange) (s : Statement) :
    (c.bindLabel s).InRange := by
  unfold Context.bindLabel
  split
  · exact h
  · exact ⟨h.pc, h.symbols.bind _ _ _ _⟩

theorem Context.InRange.move {c : Context} (h : c.InRange) (s : Statement) :
    (c.move s).InRange :=
  ⟨isWord_pc_move h.pc s, by rw [symbols_move]; exact h.symbols⟩

/-- The first pass keeps the table in range. -/
theorem Layout.inRange_run {c : Context} (h : c.InRange) (ss : List Statement) :
    (run c ss).2.symbols.InRange := by
  induction ss generalizing c with
  | nil => exact h.symbols
  | cons s rest ih =>
    cases hends : s.ends with
    | true =>
      rw [run_cons_of_ends c rest hends]
      exact (h.bindLabel _).symbols
    | false =>
      rw [run_cons c rest hends]
      exact ih ((h.bindLabel _).move _)

theorem Coding.inRange_checkDefinition {c : Context} (h : c.InRange) (s : Statement) :
    (checkDefinition c s).2.InRange := by
  unfold checkDefinition
  split
  · exact h
  · split
    · exact h.bindLabel s
    · split_ifs
      · exact h
      · refine ⟨h.pc, h.symbols.modify _ fun s' _ v hv => ?_⟩
        obtain rfl := Option.some.inj hv
        exact isWord_word _
      · exact h

/-- A step keeps the context in range. -/
theorem Coding.inRange_step {c : Context} (h : c.InRange) (layout : Option Nat) (s : Statement) :
    (step c layout s).2.InRange := by
  have hcheck := inRange_checkDefinition h (s.parse c)
  rcases step_cases c layout s with
    ⟨_, _, hstep⟩ | ⟨_, hstep⟩ | ⟨_, _, _, _, hstep⟩ | ⟨_, _, hstep⟩ <;> rw [hstep]
  · exact ⟨isWord_word _, h.symbols⟩
  · exact hcheck
  · exact ⟨isWord_word _, hcheck.symbols⟩
  · exact hcheck.move _

theorem Assembler.inRange_seed (s : Assembler) : s.seed.context.symbols.InRange :=
  s.seed_induction (fun _ h => absurd h List.not_mem_nil) fun _ _ _ ht _ => ht.insert _ _ _ _

/-- **In both passes every statement has a word as its value**, and stands at one in the layout. -/
theorem Assembly.isWord_passes (s : Assembler) (lines : List Text) :
    ∀ p ∈ (s.seed.load lines).passes, IsWord p.1.before.pc ∧
      IsWord p.1.statement.reading.value ∧ IsWord p.2.statement.reading.value := by
  have hseed : ((s.seed.load lines).context.reset .first).InRange := ⟨isWord_zero, s.inRange_seed⟩
  rw [passes_eq]
  -- both contexts stay in range
  refine Passes.forall_run (I := fun c₁ c₂ => c₁.InRange ∧ c₂.InRange) (Q := fun _ => True)
    (fun c₁ c₂ st hc _ => ⟨?_, fun _ => ?_⟩) ⟨hseed, isWord_zero, Layout.inRange_run hseed _⟩
    fun _ _ => trivial
  · refine ⟨hc.1.pc, Reading.isWord_ofText hc.1 st.text, ?_⟩
    show IsWord (Coding.step c₂ _ st).1.statement.reading.value
    rw [Coding.value_step]
    exact Reading.isWord_ofText hc.2 st.text
  · exact ⟨(hc.1.bindLabel _).move _, Coding.inRange_step hc.2 _ st⟩

end Cosmac
