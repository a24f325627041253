import Cosmac.Proofs.Lexical
import Cosmac.Proofs.Parts
import Cosmac.Proofs.SymbolTable

/-!
# Reading with more symbols known

A statement is read first with few values in the table and later with more.  `Context.Grows` says
how the contexts differ: the location counter is the same, no value is lost or changed, and a name
that was read as a number is still not in the table.  Then

* what was evaluated without an unknown name has the same value later (`Expr.eval_of_grows`), and
  takes as much room in any case (`Expr.alike_of_grows`);
* a statement without an error in the final pass is read in the same way again
  (`Shape.resolve_of_grows`);
* from the first to the final pass an error stays an error (`Shape.failed_of_grows`), the size of
  a statement stays (`Shape.size_of_grows`), and so does the value of an origin or an equate that
  was known (`Shape.value_of_grows`).
-/

namespace Cosmac

/-! ### Tables -/

namespace SymbolTable

/-- The second table has all symbols of the first, and all their values. -/
protected structure Le (t t' : SymbolTable) : Prop where
  /-- No value is lost or changed. -/
  value : ∀ n v, t.valueOf n = some v → t'.valueOf n = some v
  /-- No symbol is lost. -/
  symbol : ∀ n, (t.lookup n).isSome = true → (t'.lookup n).isSome = true

protected theorem Le.refl (t : SymbolTable) : t.Le t := ⟨fun _ _ => id, fun _ => id⟩

protected theorem Le.trans {t₁ t₂ t₃ : SymbolTable} (h : t₁.Le t₂) (h' : t₂.Le t₃) : t₁.Le t₃ :=
  ⟨fun n v hv => h'.value n v (h.value n v hv), fun n hn => h'.symbol n (h.symbol n hn)⟩

/-- A name has a value if it is a symbol with this value. -/
theorem valueOf_eq_some_iff {t : SymbolTable} {n : Text} {v : Int} :
    t.valueOf n = some v ↔ ∃ symbol, t.lookup n = some symbol ∧ symbol.value = some v :=
  Option.bind_eq_some_iff

end SymbolTable

/-- The letter `R` and one hexadecimal digit. -/
def Token.isRegisterWord : Text → Bool
  | ['R', digit] => Token.isHexWord [digit]
  | _ => false

/-- Two letters of which the first is `R` are no hexadecimal number. -/
theorem Token.isHexWord_register (digit : Char) : Token.isHexWord ['R', digit] = false := by
  have hupper : Text.upper ['R', digit] = 'R' :: Text.upperChar digit := by
    simp [Text.upper, Text.upperChar]
  have hR : Token.isHexDigit 'R' = false := by decide
  simp [Token.isHexWord, hupper, hR]

/-- The name of a register is `R` and its digit. -/
theorem Token.exists_of_isRegisterWord {w : Text} (h : Token.isRegisterWord w = true) :
    ∃ digit, w = ['R', digit] ∧ Token.isHexWord [digit] = true := by
  unfold Token.isRegisterWord at h
  split at h
  · exact ⟨_, rfl, h⟩
  · cases h

/-- The name is read as a number, or as the number of a register, unless it is in the table. -/
def Token.isNumeral (n : Text) : Bool := Token.isHexWord n || Token.isRegisterWord n

/-- No name in the table could be read as a number or a register. -/
def SymbolTable.Plain (t : SymbolTable) : Prop :=
  ∀ symbol ∈ t.symbols, Token.isHexWord symbol.name = false ∧
    Token.isRegisterWord symbol.name = false

instance (t : SymbolTable) : Decidable t.Plain :=
  inferInstanceAs (Decidable (∀ symbol ∈ _, _))

/-- In a plain table, what can be read as a number is no symbol. -/
theorem SymbolTable.lookup_of_plain {t : SymbolTable} (hplain : t.Plain) {n : Text} (hn : n.IsName)
    (hnumeral : Token.isNumeral n = true) : t.lookup n = none := by
  cases hsymbol : t.lookup n with
  | none => rfl
  | some symbol =>
    have hname : symbol.name = n := (name_of_lookup hsymbol).trans (Text.upper_of_isName hn)
    have hboth := hplain symbol (List.mem_of_find?_eq_some hsymbol)
    rw [hname] at hboth
    simp [Token.isNumeral, hboth] at hnumeral

/-! ### Contexts -/

/-- The second context knows all that the first knows, at the same place. -/
structure Context.Grows (c c' : Context) : Prop where
  /-- The location counters agree. -/
  pc : c'.pc = c.pc
  /-- No symbol and no value is lost. -/
  symbols : c.symbols.Le c'.symbols
  /-- No symbol takes the place of a number. -/
  absent : ∀ n : Text, n.IsName → Token.isNumeral n = true → c.symbols.lookup n = none →
    c'.symbols.lookup n = none

section Names

variable (c : Context) (n : Text)

/-- A symbol with a value stands for it. -/
theorem Context.nameValue_of_valueOf {v : Int} (h : c.symbols.valueOf n = some v) :
    c.nameValue n = .ok { value := v } := by
  obtain ⟨symbol, hsymbol, hvalue⟩ := SymbolTable.valueOf_eq_some_iff.mp h
  simp [Context.nameValue, hsymbol, hvalue]

/-- **What a name can stand for**: the value of a symbol, a number, or nothing yet. -/
theorem Context.nameValue_cases :
    (∃ v, c.symbols.valueOf n = some v ∧ c.nameValue n = .ok { value := v }) ∨
    (c.symbols.lookup n = none ∧ Token.isHexWord n = true ∧
      c.nameValue n = .ok (.ofNat (Token.number 16 n))) ∨
    (((c.symbols.lookup n).isSome = true ∨ Token.isHexWord n = false) ∧
      c.symbols.valueOf n = none ∧ c.nameValue n = c.undefined n) := by
  cases hsymbol : c.symbols.lookup n with
  | none =>
    cases hhex : Token.isHexWord n <;>
      simp [Context.nameValue, SymbolTable.valueOf, hsymbol, hhex]
  | some symbol =>
    cases hvalue : symbol.value <;>
      simp [Context.nameValue, SymbolTable.valueOf, hsymbol, hvalue]

/-- The number of a register or device that a name which is no symbol stands for. -/
def RegisterTerm.literal (r : RegisterClass) (n : Text) : Except Diagnostic Value :=
  if Token.isRegisterWord n then .ok { value := Token.number 16 (n.drop 1) }
  else r.check (Token.number 16 n)

theorem RegisterTerm.eval_of_valueOf (r : RegisterClass) {v : Int}
    (h : c.symbols.valueOf n = some v) :
    (RegisterTerm.name n).eval c r = .ok { value := v % (r.limit + 1) } := by
  obtain ⟨symbol, hsymbol, hvalue⟩ := SymbolTable.valueOf_eq_some_iff.mp h
  simp [RegisterTerm.eval, hsymbol, hvalue]

/-- A name that is no symbol is a register, a number or undefined. -/
theorem RegisterTerm.eval_of_lookup_none (r : RegisterClass) (h : c.symbols.lookup n = none) :
    (RegisterTerm.name n).eval c r
      = if Token.isNumeral n then literal r n else c.undefined n := by
  unfold RegisterTerm.eval literal Token.isNumeral
  simp only [h]
  split
  · rename_i digit
    have hhex := Token.isHexWord_register digit
    cases hdigit : Token.isHexWord [digit] <;> simp [Token.isRegisterWord, hhex, hdigit]
  · rename_i hshape
    have hregister : Token.isRegisterWord n = false := by
      unfold Token.isRegisterWord
      split
      · exact absurd rfl (hshape _)
      · rfl
    simp [hregister]

/-- **What a name can stand for as a register.** -/
theorem RegisterTerm.eval_name_cases (r : RegisterClass) :
    (∃ v, c.symbols.valueOf n = some v ∧
      (RegisterTerm.name n).eval c r = .ok { value := v % (r.limit + 1) }) ∨
    (c.symbols.lookup n = none ∧ Token.isNumeral n = true ∧
      (RegisterTerm.name n).eval c r = literal r n) ∨
    (c.symbols.valueOf n = none ∧ (RegisterTerm.name n).eval c r = c.undefined n) := by
  cases hsymbol : c.symbols.lookup n with
  | none =>
    rw [RegisterTerm.eval_of_lookup_none c n r hsymbol]
    cases hnumeral : Token.isNumeral n with
    | true => simp
    | false => simp [SymbolTable.valueOf, hsymbol]
  | some symbol =>
    cases hvalue : symbol.value <;>
      simp [RegisterTerm.eval, SymbolTable.valueOf, hsymbol, hvalue]

/-- In the final pass an undefined name is an error. -/
theorem Context.undefined_of_final (h : c.pass.isFinal = true) :
    c.undefined n = .error (.undefined n) := by
  unfold Context.undefined
  rw [h]
  rfl

/-- In the first pass an undefined name counts as 0 and is marked. -/
theorem Context.undefined_of_first (h : c.pass.isFinal = false) :
    c.undefined n = .ok { value := 0, unresolved := true } := by
  unfold Context.undefined
  rw [h]
  rfl

end Names

/-! ### Values -/

/-- What ends a statement is read without an error if it has a value and nothing stands behind it.
-/
theorem Reading.addLast_eq_ok_iff {c : Context} {operand : Operand Expr} {fault : Option Kind}
    {r r' : Reading} :
    addLast c operand fault r = (r', none) ↔
      ∃ e v, operand = .read e ∧ e.eval c = .ok v ∧ fault = none ∧ r.setValue v = r' := by
  constructor
  · intro h
    cases operand with
    | broken b => cases h
    | read e =>
      unfold addLast at h
      dsimp only at h
      split at h
      · cases h
      · rename_i v hv
        obtain ⟨rfl, hfault⟩ := Prod.mk.inj h
        exact ⟨e, v, rfl, hv, Option.map_eq_none_iff.mp hfault, rfl⟩
  · rintro ⟨e, v, rfl, hv, rfl, rfl⟩
    simp [addLast, hv]

section Values

variable {c c' : Context} (hgrows : c.Grows c')

include hgrows

/-- A term that was known has the same value later. -/
theorem Term.eval_of_grows {term : Term} (htidy : term.Tidy) {v : Value}
    (hv : term.eval c = .ok v) (hknown : v.unresolved = false) : term.eval c' = .ok v := by
  cases term with
  | here =>
    rw [← hv]
    unfold Term.eval
    rw [hgrows.pc]
  | constant n => exact hv
  | character b => exact hv
  | name n =>
    have hv : c.nameValue n = .ok v := hv
    show c'.nameValue n = .ok v
    rcases c.nameValue_cases n with ⟨w, hw, heval⟩ | ⟨hnone, hhex, heval⟩ | ⟨_, _, heval⟩
    · -- the value is still in the table
      rw [c'.nameValue_of_valueOf n (hgrows.symbols.value n w hw), ← heval, hv]
    · -- the number is still no symbol
      have hnone' := hgrows.absent n htidy (by simp [Token.isNumeral, hhex]) hnone
      rw [← hv, heval, Context.nameValue, hnone']
      simp [hhex]
    · -- the name was not known, against the assumption
      rw [heval] at hv
      unfold Context.undefined at hv
      split_ifs at hv
      obtain rfl := Except.ok.inj hv
      cases hknown

/-- A term takes as much room later, known or not. -/
theorem Term.alike_of_grows {term : Term} (htidy : term.Tidy) {v v' : Value}
    (hv : term.eval c = .ok v) (hv' : term.eval c' = .ok v') : v.Alike v' := by
  cases term with
  | here =>
    obtain rfl := Except.ok.inj hv
    obtain rfl := Except.ok.inj hv'
    exact ⟨rfl, rfl⟩
  | constant n => exact Except.ok.inj (hv.symm.trans hv') ▸ Value.Alike.refl v
  | character b => exact Except.ok.inj (hv.symm.trans hv') ▸ Value.Alike.refl v
  | name n =>
    have hv : c.nameValue n = .ok v := hv
    have hv' : c'.nameValue n = .ok v' := hv'
    -- a name takes one byte, unless it is a number, and then it is the same number in both
    have hbyte : ∀ {d : Context} {w : Value}, d.nameValue n = .ok w →
        ((d.symbols.lookup n).isSome = true ∨ Token.isHexWord n = false) →
          w.Alike { value := 0 } := by
      intro d w hw hsymbol
      rcases d.nameValue_cases n with ⟨u, _, heval⟩ | ⟨hnone, hhex, _⟩ | ⟨_, _, heval⟩
      · obtain rfl := Except.ok.inj (hw.symm.trans heval)
        exact ⟨rfl, rfl⟩
      · rw [hnone, hhex] at hsymbol
        simp at hsymbol
      · rw [heval] at hw
        unfold Context.undefined at hw
        split_ifs at hw
        obtain rfl := Except.ok.inj hw
        exact ⟨rfl, rfl⟩
    by_cases hnumber : c.symbols.lookup n = none ∧ Token.isHexWord n = true
    · obtain ⟨hnone, hhex⟩ := hnumber
      have hnone' := hgrows.absent n htidy (by simp [Token.isNumeral, hhex]) hnone
      have heq : c'.nameValue n = c.nameValue n := by
        simp [Context.nameValue, hnone, hnone', hhex]
      rw [hv, hv'] at heq
      exact Except.ok.inj heq ▸ Value.Alike.refl _
    · have hsymbol : (c.symbols.lookup n).isSome = true ∨ Token.isHexWord n = false := by
        cases hlookup : c.symbols.lookup n with
        | none => exact Or.inr (Bool.eq_false_iff.mpr fun hhex => hnumber ⟨hlookup, hhex⟩)
        | some symbol => exact Or.inl rfl
      have hsymbol' : (c'.symbols.lookup n).isSome = true ∨ Token.isHexWord n = false :=
        hsymbol.imp_left (hgrows.symbols.symbol n)
      have h := hbyte hv hsymbol
      have h' := hbyte hv' hsymbol'
      exact ⟨h.size.trans h'.size.symm, h.addressOf.trans h'.addressOf.symm⟩

/-- **What was known has the same value later.** -/
theorem Expr.eval_of_grows {e : Expr} (htidy : e.term.Tidy) {v : Value} (hv : e.eval c = .ok v)
    (hknown : v.unresolved = false) : e.eval c' = .ok v := by
  unfold Expr.eval at hv ⊢
  cases hterm : e.term.eval c with
  | error d =>
    rw [hterm] at hv
    cases hv
  | ok w =>
    rw [hterm] at hv
    obtain rfl := Except.ok.inj hv
    have hw : w.unresolved = false := by
      revert hknown
      cases e.selector <;> cases e.offset <;> exact id
    rw [Term.eval_of_grows hgrows htidy hterm hw]

/-- **The room of an expression stays the same.** -/
theorem Expr.alike_of_grows {e : Expr} (htidy : e.term.Tidy) {v v' : Value}
    (hv : e.eval c = .ok v) (hv' : e.eval c' = .ok v') : v.Alike v' := by
  unfold Expr.eval at hv hv'
  split at hv
  · cases hv
  · rename_i w hw
    split at hv'
    · cases hv'
    · rename_i w' hw'
      obtain rfl := Except.ok.inj hv
      obtain rfl := Except.ok.inj hv'
      have halike := Term.alike_of_grows hgrows htidy hw hw'
      cases e.selector with
      | plain =>
        cases e.offset with
        | none => exact halike
        | some amount => exact ⟨rfl, halike.addressOf⟩
      | _ => exact ⟨rfl, rfl⟩

/-- A register that was known is the same later. -/
theorem RegisterTerm.eval_of_grows {term : RegisterTerm} (htidy : term.Tidy) (r : RegisterClass)
    {v : Value} (hv : term.eval c r = .ok v) (hknown : v.unresolved = false) :
    term.eval c' r = .ok v := by
  cases term with
  | value n => exact hv
  | name n =>
    rcases RegisterTerm.eval_name_cases c n r with
      ⟨w, hw, heval⟩ | ⟨hnone, hnumeral, heval⟩ | ⟨_, heval⟩
    · rw [RegisterTerm.eval_of_valueOf c' n r (hgrows.symbols.value n w hw), ← heval, hv]
    · have hnone' := hgrows.absent n htidy hnumeral hnone
      rw [RegisterTerm.eval_of_lookup_none c' n r hnone', if_pos hnumeral, ← heval, hv]
    · rw [heval] at hv
      unfold Context.undefined at hv
      split_ifs at hv
      obtain rfl := Except.ok.inj hv
      cases hknown

/-- A number out of range in the first pass is out of range in any other. -/
theorem RegisterTerm.error_of_grows {term : RegisterTerm} (htidy : term.Tidy) (r : RegisterClass)
    {d : Diagnostic} (hfirst : c.pass.isFinal = false) (hd : term.eval c r = .error d) :
    term.eval c' r = .error d := by
  cases term with
  | value n => exact hd
  | name n =>
    rcases RegisterTerm.eval_name_cases c n r with
      ⟨w, _, heval⟩ | ⟨hnone, hnumeral, heval⟩ | ⟨_, heval⟩
    · rw [heval] at hd
      cases hd
    · have hnone' := hgrows.absent n htidy hnumeral hnone
      rw [RegisterTerm.eval_of_lookup_none c' n r hnone', if_pos hnumeral, ← heval, hd]
    · rw [heval, c.undefined_of_first n hfirst] at hd
      cases hd

/-- What ends a statement and was known is read in the same way later. -/
theorem Reading.addLast_of_grows {operand : Operand Expr} {fault : Option Kind}
    (htidy : operand.Tidy fun e => e.term.Tidy) {r r' : Reading}
    (h : addLast c operand fault r = (r', none)) (hknown : r'.unresolved = false) :
    addLast c' operand fault r = (r', none) := by
  obtain ⟨e, v, rfl, hv, hfault, rfl⟩ := addLast_eq_ok_iff.mp h
  exact addLast_eq_ok_iff.mpr ⟨e, v, rfl, Expr.eval_of_grows hgrows htidy hv hknown, hfault, rfl⟩

end Values

/-! ### The final pass -/

section Final

variable {c c' : Context} (hgrows : c.Grows c') (hfinal : c.pass.isFinal = true)

include hfinal in
/-- In the final pass every value is known. -/
theorem Term.unresolved_of_final {term : Term} {v : Value} (hv : term.eval c = .ok v) :
    v.unresolved = false := by
  cases term with
  | name n =>
    have hv : c.nameValue n = .ok v := hv
    rcases c.nameValue_cases n with ⟨w, _, heval⟩ | ⟨_, _, heval⟩ | ⟨_, _, heval⟩
    · obtain rfl := Except.ok.inj (hv.symm.trans heval)
      rfl
    · obtain rfl := Except.ok.inj (hv.symm.trans heval)
      rfl
    · rw [heval, c.undefined_of_final n hfinal] at hv
      cases hv
  | _ =>
    obtain rfl := Except.ok.inj hv
    rfl

include hfinal in
theorem Expr.unresolved_of_final {e : Expr} {v : Value} (hv : e.eval c = .ok v) :
    v.unresolved = false := by
  unfold Expr.eval at hv
  split at hv
  · cases hv
  · rename_i w hw
    obtain rfl := Except.ok.inj hv
    have hknown := Term.unresolved_of_final hfinal hw
    cases e.selector <;> cases e.offset <;> exact hknown

include hfinal in
theorem RegisterTerm.unresolved_of_final {term : RegisterTerm} {r : RegisterClass} {v : Value}
    (hv : term.eval c r = .ok v) : v.unresolved = false := by
  have hcheck : ∀ n, r.check n = .ok v → v.unresolved = false := by
    intro n hn
    unfold RegisterClass.check at hn
    split_ifs at hn
    obtain rfl := Except.ok.inj hn
    rfl
  cases term with
  | value n => exact hcheck n hv
  | name n =>
    rcases RegisterTerm.eval_name_cases c n r with ⟨w, _, heval⟩ | ⟨_, _, heval⟩ | ⟨_, heval⟩
    · obtain rfl := Except.ok.inj (hv.symm.trans heval)
      rfl
    · rw [heval] at hv
      unfold RegisterTerm.literal at hv
      split_ifs at hv
      · obtain rfl := Except.ok.inj hv
        rfl
      · exact hcheck _ hv
    · rw [heval, c.undefined_of_final n hfinal] at hv
      cases hv

variable (hpass : c'.pass = c.pass)

include hgrows hfinal

/-- An item that has its bytes has them later. -/
theorem Item.bytes_of_grows {item : Item} (htidy : item.Tidy) {b : List UInt8}
    (hb : item.bytes c = .ok b) : item.bytes c' = .ok b := by
  cases item with
  | string text => exact hb
  | expression e =>
    obtain ⟨v, hv, rfl⟩ := Item.bytes_expression_eq_ok hb
    have hv' := Expr.eval_of_grows hgrows htidy hv (Expr.unresolved_of_final hfinal hv)
    simp [Item.bytes, hv']

namespace Reading

theorem addItems_of_grows {items : List Item} (htidy : ∀ item ∈ items, item.Tidy) {r r' : Reading}
    (h : addItems c items r = (r', none)) : addItems c' items r = (r', none) := by
  induction items generalizing r with
  | nil => exact h
  | cons item items ih =>
    rw [addItems] at h ⊢
    cases hb : item.bytes c with
    | error d =>
      rw [hb] at h
      cases h
    | ok b =>
      rw [hb] at h
      rw [Item.bytes_of_grows hgrows hfinal (htidy item (List.mem_cons_self ..)) hb]
      exact ih (fun item' h' => htidy item' (List.mem_cons_of_mem _ h')) h

theorem addData_of_grows {list : DataList} (htidy : list.Tidy) {r r' : Reading}
    (h : addData c list r = (r', none)) : addData c' list r = (r', none) := by
  obtain ⟨hfault, hitems⟩ := addData_eq_ok_iff.mp h
  have hitems' := addItems_of_grows hgrows hfinal htidy.items (addItems_eq_ok_iff.mpr hitems)
  exact addData_eq_ok_iff.mpr ⟨hfault, addItems_eq_ok_iff.mp hitems'⟩

theorem addLast_of_final {operand : Operand Expr} {fault : Option Kind}
    (htidy : operand.Tidy fun e => e.term.Tidy) {r r' : Reading}
    (h : addLast c operand fault r = (r', none)) : addLast c' operand fault r = (r', none) := by
  refine addLast_of_grows hgrows htidy h ?_
  obtain ⟨e, v, _, hv, _, rfl⟩ := addLast_eq_ok_iff.mp h
  exact Expr.unresolved_of_final hfinal hv

include hpass in
/-- An operand without an error is read in the same way later. -/
theorem addOperand_of_grows {kind : OperandKind} {argument : Argument} (htidy : argument.Tidy)
    {r r' : Reading} (h : addOperand c kind (.read argument) r = (r', none)) :
    addOperand c' kind (.read argument) r = (r', none) := by
  cases argument with
  | none => exact h
  | register term =>
    unfold addOperand addRegister at h ⊢
    dsimp only at h ⊢
    cases hv : term.eval c (registerClass kind) with
    | error d => simp [hv] at h
    | ok v =>
      have hv' := RegisterTerm.eval_of_grows hgrows htidy _ hv
        (RegisterTerm.unresolved_of_final hfinal hv)
      simpa only [hv, hv'] using h
  | expression e =>
    unfold addOperand addExpression at h ⊢
    dsimp only at h ⊢
    cases hv : e.eval c with
    | error d => simp [hv] at h
    | ok v =>
      have hv' := Expr.eval_of_grows hgrows htidy hv (Expr.unresolved_of_final hfinal hv)
      simpa only [hv, hv', hpass, hgrows.pc] using h

include hpass in
theorem addInstruction_of_grows {i : Instruction} {operand : Operand Argument} {list : DataList}
    (htidy : (Operation.instruction i operand list).Tidy) {r r' : Reading}
    (h : addInstruction c i operand list r = (r', none)) :
    addInstruction c' i operand list r = (r', none) := by
  unfold addInstruction at h ⊢
  split at h
  · cases h
  · rename_i x hx
    cases operand with
    | broken b => cases hx
    | read argument =>
      rw [addOperand_of_grows hgrows hfinal hpass htidy.1 hx]
      exact addData_of_grows hgrows hfinal htidy.2 h

end Reading

include hpass in
/-- **A statement without an error is read in the same way again.** -/
theorem Shape.resolve_of_grows {s : Shape} (htidy : s.operation.Tidy)
    (h : (s.resolve c).status.error? = none) : s.resolve c' = s.resolve c := by
  rw [status_resolve_eq] at h
  have hprogress : s.progress c' = s.progress c := by
    cases hp : s.progress c with
    | mk r e =>
    rw [hp] at h
    cases e with
    | some d => cases h
    | none =>
      unfold progress at hp ⊢
      cases hop : s.operation with
      | data list =>
        rw [hop] at htidy hp
        exact Reading.addData_of_grows hgrows hfinal htidy hp
      | equate operand fault =>
        rw [hop] at htidy hp
        exact Reading.addLast_of_final hgrows hfinal htidy.1 hp
      | origin operand fault =>
        rw [hop] at htidy hp
        exact Reading.addLast_of_final hgrows hfinal htidy.1 hp
      | instruction i operand list =>
        rw [hop] at htidy hp
        exact Reading.addInstruction_of_grows hgrows hfinal hpass htidy hp
      | _ =>
        rw [hop] at hp
        exact hp
  rw [resolve_eq_settle, resolve_eq_settle, hprogress]

end Final

/-! ### From the first pass on -/

section First

variable {c c' : Context} (hgrows : c.Grows c')

namespace Reading

/-- In the first pass no item is in error. -/
theorem addItems_first (hfirst : c.pass.isFinal = false) (items : List Item) (r : Reading) :
    (addItems c items r).2 = none := by
  induction items generalizing r with
  | nil => rfl
  | cons item items ih =>
    have hbytes : ∃ b, item.bytes c = .ok b := by
      cases item with
      | string text => exact ⟨_, rfl⟩
      | expression e =>
        obtain ⟨v, hv⟩ := Expr.eval_first hfirst e
        exact ⟨v.bytes, by simp [Item.bytes, hv]⟩
    obtain ⟨b, hb⟩ := hbytes
    rw [addItems, hb]
    exact ih _

theorem fault_of_addData_first (hfirst : c.pass.isFinal = false) {list : DataList} {r : Reading}
    (h : (addData c list r).2.isSome = true) : list.fault.isSome = true := by
  rw [addData_eq, addItems_first hfirst] at h
  simpa using h

theorem isSome_addData_of_fault (c : Context) {list : DataList} (h : list.fault.isSome = true)
    (r : Reading) : (addData c list r).2.isSome = true := by
  rw [addData_eq]
  obtain ⟨b, hb⟩ := Option.isSome_iff_exists.mp h
  rw [hb]
  cases (addItems c list.items {}).2 <;> rfl

theorem isSome_addLast (c : Context) {operand : Operand Expr} {fault : Option Kind} {r : Reading}
    (h : (∃ b, operand = .broken b) ∨ fault.isSome = true) :
    (addLast c operand fault r).2.isSome = true := by
  unfold addLast
  split
  · rfl
  · rcases h with ⟨b, hb⟩ | hfault
    · cases hb
    · split
      · rfl
      · simpa using hfault

theorem cases_addLast_first (hfirst : c.pass.isFinal = false) {operand : Operand Expr}
    {fault : Option Kind} {r : Reading} (h : (addLast c operand fault r).2.isSome = true) :
    (∃ b, operand = .broken b) ∨ fault.isSome = true := by
  cases operand with
  | broken b => exact Or.inl ⟨b, rfl⟩
  | read e =>
    obtain ⟨v, hv⟩ := Expr.eval_first hfirst e
    unfold addLast at h
    simp only [hv] at h
    exact Or.inr (by simpa using h)

include hgrows in
/-- An error in an operand is still one later. -/
theorem isSome_addOperand_of_grows (hfirst : c.pass.isFinal = false) {kind : OperandKind}
    {operand : Operand Argument} (htidy : operand.Tidy Argument.Tidy) {r : Reading}
    (h : (addOperand c kind operand r).2.isSome = true) :
    (addOperand c' kind operand r).2.isSome = true := by
  cases operand with
  | broken b => rfl
  | read argument =>
    cases argument with
    | none => cases h
    | register term =>
      unfold addOperand addRegister at h ⊢
      dsimp only at h ⊢
      cases hv : term.eval c (registerClass kind) with
      | error d =>
        rw [RegisterTerm.error_of_grows hgrows htidy _ hfirst hv]
        rfl
      | ok v =>
        -- register 0 was refused, so its number was known
        simp only [hv] at h
        split_ifs at h with hzero
        · rw [RegisterTerm.eval_of_grows hgrows htidy _ hv hzero.2.2]
          simp only [if_pos hzero]
          rfl
        · cases h
    | expression e =>
      -- in the first pass an expression is never in error, and branches are not checked
      obtain ⟨v, hv⟩ := Expr.eval_first hfirst e
      unfold addOperand addExpression at h
      simp only [hv, hfirst, Bool.false_and] at h
      split at h
      · split_ifs at h <;> cases h
      · cases h
      · cases h

include hgrows in
/-- An error in an instruction is still one later. -/
theorem isSome_addInstruction_of_grows (hfirst : c.pass.isFinal = false) {i : Instruction}
    {operand : Operand Argument} {list : DataList}
    (htidy : (Operation.instruction i operand list).Tidy) {r : Reading}
    (h : (addInstruction c i operand list r).2.isSome = true) :
    (addInstruction c' i operand list r).2.isSome = true := by
  have hoperand : (addOperand c i.operand operand
        { r with instruction := some i, size := i.size }).2.isSome = true → _ :=
    isSome_addOperand_of_grows hgrows hfirst htidy.1
  unfold addInstruction at h ⊢
  split at h
  · -- the operand was in error
    rename_i x d hx
    rw [hx] at hoperand
    have hsome := hoperand rfl
    split
    · rfl
    · rename_i x' hx'
      rw [hx'] at hsome
      cases hsome
  · -- the data behind the operand were
    have hfault := fault_of_addData_first hfirst h
    split
    · rfl
    · exact isSome_addData_of_fault c' hfault _

end Reading

include hgrows in
/-- **An error of the first pass is an error later.** -/
theorem Shape.failed_of_grows (hfirst : c.pass.isFinal = false) {s : Shape}
    (htidy : s.operation.Tidy) (h : (s.resolve c).status.error?.isSome = true) :
    (s.resolve c').status.error?.isSome = true := by
  have hfailed : ∀ d : Context, (s.resolve d).status.error?.isSome = true ↔
      (s.progress d).2.isSome = true := by
    intro d
    rw [status_resolve_eq]
    cases (s.progress d).2 with
    | some _ => exact Iff.rfl
    | none => cases s.operation <;> simp [Operation.status, Status.error?]
  rw [hfailed] at h ⊢
  unfold progress at h ⊢
  cases hop : s.operation with
  | data list =>
    rw [hop] at h
    exact Reading.isSome_addData_of_fault c' (Reading.fault_of_addData_first hfirst h) _
  | equate operand fault =>
    rw [hop] at h
    exact Reading.isSome_addLast c' (Reading.cases_addLast_first hfirst h)
  | origin operand fault =>
    rw [hop] at h
    exact Reading.isSome_addLast c' (Reading.cases_addLast_first hfirst h)
  | instruction i operand list =>
    rw [hop] at htidy h
    exact Reading.isSome_addInstruction_of_grows hgrows hfirst htidy h
  | malformed d => rfl
  | empty | page | finish =>
    rw [hop] at h
    cases h

include hgrows

/-- An item takes as much room later. -/
theorem Item.length_of_grows {item : Item} (htidy : item.Tidy) {b b' : List UInt8}
    (hb : item.bytes c = .ok b) (hb' : item.bytes c' = .ok b') : b.length = b'.length := by
  cases item with
  | string text =>
    obtain rfl := Except.ok.inj hb
    obtain rfl := Except.ok.inj hb'
    rfl
  | expression e =>
    obtain ⟨v, hv, rfl⟩ := Item.bytes_expression_eq_ok hb
    obtain ⟨v', hv', rfl⟩ := Item.bytes_expression_eq_ok hb'
    exact Value.length_bytes (Expr.alike_of_grows hgrows htidy hv hv')

namespace Reading

theorem size_addItems_of_grows {items : List Item} (htidy : ∀ item ∈ items, item.Tidy)
    {r₁ r₁' r₂ r₂' : Reading} (h₁ : addItems c items r₁ = (r₁', none))
    (h₂ : addItems c' items r₂ = (r₂', none)) (hsize : r₁.size = r₂.size) :
    r₁'.size = r₂'.size := by
  induction items generalizing r₁ r₂ with
  | nil =>
    obtain rfl := (Prod.mk.inj h₁).1
    obtain rfl := (Prod.mk.inj h₂).1
    exact hsize
  | cons item items ih =>
    rw [addItems] at h₁ h₂
    split at h₁
    · cases h₁
    · rename_i b hb
      split at h₂
      · cases h₂
      · rename_i b' hb'
        have hlength := Item.length_of_grows hgrows (htidy item (List.mem_cons_self ..)) hb hb'
        refine ih (fun item' h' => htidy item' (List.mem_cons_of_mem _ h')) h₁ h₂ ?_
        show r₁.size + b.length = r₂.size + b'.length
        rw [hsize, hlength]

theorem size_addData_of_grows {list : DataList} (htidy : list.Tidy) {r₁ r₁' r₂ r₂' : Reading}
    (h₁ : addData c list r₁ = (r₁', none)) (h₂ : addData c' list r₂ = (r₂', none))
    (hsize : r₁.size = r₂.size) : r₁'.size = r₂'.size :=
  size_addItems_of_grows hgrows htidy.items (addItems_eq_ok_iff.mpr (addData_eq_ok_iff.mp h₁).2)
    (addItems_eq_ok_iff.mpr (addData_eq_ok_iff.mp h₂).2) hsize

/-- An operand takes as much room later. -/
theorem size_addOperand_of_grows {kind : OperandKind} {argument : Argument}
    (htidy : argument.Tidy) {r r₁ r₂ : Reading}
    (h₁ : addOperand c kind (.read argument) r = (r₁, none))
    (h₂ : addOperand c' kind (.read argument) r = (r₂, none)) : r₁.size = r₂.size := by
  cases argument with
  | none =>
    obtain rfl := (Prod.mk.inj h₁).1
    obtain rfl := (Prod.mk.inj h₂).1
    rfl
  | register term =>
    obtain ⟨v, rfl⟩ := addRegister_eq_ok h₁
    obtain ⟨v', rfl⟩ := addRegister_eq_ok h₂
    rfl
  | expression e =>
    obtain ⟨v, hv, h₁⟩ := addExpression_eq_ok h₁
    obtain ⟨v', hv', h₂⟩ := addExpression_eq_ok h₂
    -- an immediate operand is an address in both contexts or in neither
    have haddress := (Expr.alike_of_grows hgrows htidy hv hv').addressOf
    rcases h₁ with ⟨rfl, h₁⟩ | ⟨rfl, h₁⟩ | ⟨rfl, h₁⟩ <;>
      rcases h₂ with ⟨rfl, h₂⟩ | ⟨rfl, h₂⟩ | ⟨rfl, h₂⟩ <;> simp_all [setValue]

theorem size_addInstruction_of_grows {i : Instruction} {operand : Operand Argument}
    {list : DataList} (htidy : (Operation.instruction i operand list).Tidy) {r r₁ r₂ : Reading}
    (h₁ : addInstruction c i operand list r = (r₁, none))
    (h₂ : addInstruction c' i operand list r = (r₂, none)) : r₁.size = r₂.size := by
  unfold addInstruction at h₁ h₂
  split at h₁
  · cases h₁
  · rename_i x hx
    split at h₂
    · cases h₂
    · rename_i x' hx'
      cases operand with
      | broken b => cases hx
      | read argument =>
        exact size_addData_of_grows hgrows htidy.2 h₁ h₂
          (size_addOperand_of_grows hgrows htidy.1 hx hx')

end Reading

/-- **The size of a statement stays**, as long as it is not in error. -/
theorem Shape.size_of_grows {s : Shape} (htidy : s.operation.Tidy)
    (h : (s.resolve c).status.error? = none) (h' : (s.resolve c').status.error? = none) :
    (s.resolve c).size = (s.resolve c').size := by
  by_cases hroom : s.operation.takesRoom = false
  · rw [size_resolve_eq_zero c s hroom, size_resolve_eq_zero c' s hroom]
  -- what is left is data and instructions
  rw [status_resolve_eq] at h h'
  rw [resolve_eq_settle, resolve_eq_settle, Reading.size_settle, Reading.size_settle]
  cases hp : s.progress c with
  | mk r e =>
  cases hp' : s.progress c' with
  | mk r' e' =>
  rw [hp] at h
  rw [hp'] at h'
  cases e with
  | some d => cases h
  | none =>
  cases e' with
  | some d => cases h'
  | none =>
  unfold progress at hp hp'
  cases hop : s.operation with
  | data list =>
    rw [hop] at htidy hp hp'
    exact Reading.size_addData_of_grows hgrows htidy hp hp' rfl
  | instruction i operand list =>
    rw [hop] at htidy hp hp'
    exact Reading.size_addInstruction_of_grows hgrows htidy hp hp'
  | _ => exact absurd (by rw [hop]; rfl) hroom

/-- **An origin or an equate whose value was known has the same value later.** -/
theorem Shape.value_of_grows {s : Shape} (htidy : s.operation.Tidy)
    (hlast : s.operation.isOrigin = true ∨ s.operation.isEquate = true)
    (h : (s.resolve c).status.error? = none) (hknown : (s.resolve c).unresolved = false) :
    s.resolve c' = s.resolve c := by
  rw [status_resolve_eq] at h
  rw [resolve_eq_settle] at hknown
  have hprogress : s.progress c' = s.progress c := by
    cases hp : s.progress c with
    | mk r e =>
    rw [hp] at h hknown
    cases e with
    | some d => cases h
    | none =>
      unfold progress at hp ⊢
      cases hop : s.operation with
      | equate operand fault =>
        rw [hop] at htidy hp
        exact Reading.addLast_of_grows hgrows htidy.1 hp hknown
      | origin operand fault =>
        rw [hop] at htidy hp
        exact Reading.addLast_of_grows hgrows htidy.1 hp hknown
      | _ =>
        rw [hop] at hlast
        simp [Operation.isOrigin, Operation.isEquate] at hlast
  rw [resolve_eq_settle, resolve_eq_settle, hprogress]

end First

end Cosmac
