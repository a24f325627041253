import Cosmac.Proofs.Extension

/-!
# The errors of a single statement

What reading a statement can report in any context: a fault of the text, a name without a value, a
number out of range, a branch out of its page (`Shape.explained_resolve`).  A second definition and
a change of size are not among them: it takes another statement or another reading to find one.
-/

namespace Cosmac

/-- The fault is one of the text, or an unknown name. -/
def Kind.IsLexical (kind : Kind) : Prop := kind.Tidy ∨ kind = .undefinedSymbol

namespace Diagnostic

/-- The error names a symbol that has no value. -/
def IsUnknown (symbols : SymbolTable) (d : Diagnostic) : Prop :=
  ∃ n, d = .undefined n ∧ symbols.valueOf n = none

/-- The error is one of the text, or it names a symbol that has no value. -/
def IsExplained (symbols : SymbolTable) (d : Diagnostic) : Prop :=
  d.kind.Tidy ∨ d.IsUnknown symbols

theorem IsExplained.isLexical {symbols : SymbolTable} {d : Diagnostic}
    (h : d.IsExplained symbols) : d.kind.IsLexical := by
  rcases h with hkind | ⟨n, rfl, _⟩
  · exact Or.inl hkind
  · exact Or.inr rfl

end Diagnostic

variable (c : Context)

theorem Context.isUnknown_undefined {n : Text} (hvalue : c.symbols.valueOf n = none)
    {d : Diagnostic} (h : c.undefined n = .error d) : d.IsUnknown c.symbols := by
  unfold Context.undefined at h
  split_ifs at h
  obtain rfl := Except.error.inj h
  exact ⟨n, rfl, hvalue⟩

/-- Only a name can fail to have a value, and then the table has none for it. -/
theorem Term.isUnknown_eval {term : Term} {d : Diagnostic} (h : term.eval c = .error d) :
    d.IsUnknown c.symbols := by
  cases term with
  | name n =>
    rcases c.nameValue_cases n with ⟨_, _, heval⟩ | ⟨_, _, heval⟩ | ⟨_, hvalue, heval⟩
    · cases heval.symm.trans h
    · cases heval.symm.trans h
    · exact c.isUnknown_undefined hvalue (heval.symm.trans h)
  | _ => cases h

theorem Expr.isUnknown_eval {e : Expr} {d : Diagnostic} (h : e.eval c = .error d) :
    d.IsUnknown c.symbols := by
  unfold Expr.eval at h
  split at h
  · rename_i hterm
    obtain rfl := Except.error.inj h
    exact Term.isUnknown_eval c hterm
  · cases h

/-- Where a text breaks off, the term before the break may be unknown. -/
theorem Break.explained_diagnostic {b : Break} (htidy : b.Tidy) :
    (b.diagnostic c).IsExplained c.symbols := by
  unfold Break.diagnostic
  split
  · exact Or.inl htidy.kind
  · -- the term in front of the break is looked up first
    split
    · rename_i hterm
      exact Or.inr (Term.isUnknown_eval c hterm)
    · exact Or.inl htidy.kind

theorem RegisterTerm.explained_eval {term : RegisterTerm} {r : RegisterClass} {d : Diagnostic}
    (h : term.eval c r = .error d) : d.IsExplained c.symbols := by
  have hcheck : ∀ n, r.check n = .error d → d.kind.Tidy := by
    intro n hn
    unfold RegisterClass.check at hn
    split_ifs at hn
    obtain rfl := Except.error.inj hn
    cases r <;> exact nofun
  cases term with
  | value n => exact Or.inl (hcheck n h)
  | name n =>
    rcases RegisterTerm.eval_name_cases c n r with ⟨_, _, heval⟩ | ⟨_, _, heval⟩ | ⟨hvalue, heval⟩
    · cases heval.symm.trans h
    · have hliteral := heval.symm.trans h
      unfold RegisterTerm.literal at hliteral
      split_ifs at hliteral
      exact Or.inl (hcheck _ hliteral)
    · exact Or.inr (c.isUnknown_undefined hvalue (heval.symm.trans h))

namespace Reading

/-- In data an item can be unknown, and the text can break off behind the items. -/
theorem explained_addData {list : DataList} (htidy : list.Tidy) {r : Reading} :
    ∀ d ∈ (addData c list r).2, d.IsExplained c.symbols := by
  have hitems : ∀ (items : List Item) (x : Reading),
      ∀ d ∈ (addItems c items x).2, d.IsUnknown c.symbols := by
    intro items
    induction items with
    | nil => exact fun _ _ h => nomatch h
    | cons item items ih =>
      intro x d hd
      rw [addItems] at hd
      split at hd
      · rename_i e hbytes
        obtain rfl := Option.some.inj hd
        cases item with
        | string text => cases hbytes
        | expression e =>
          unfold Item.bytes at hbytes
          dsimp only at hbytes
          split at hbytes
          · rename_i heval
            obtain rfl := Except.error.inj hbytes
            exact Expr.isUnknown_eval c heval
          · cases hbytes
      · exact ih _ d hd
  intro d hd
  unfold addData at hd
  split at hd
  · rename_i x e hx
    have hd' : d ∈ (addItems c list.items r).2 := by
      rw [hx]
      exact hd
    exact Or.inr (hitems _ _ d hd')
  · obtain ⟨b, hb, rfl⟩ := Option.map_eq_some_iff.mp hd
    exact Break.explained_diagnostic c (htidy.fault b hb)

theorem kind_addData {list : DataList} (htidy : list.Tidy) {r : Reading} :
    ∀ d ∈ (addData c list r).2, d.kind.IsLexical :=
  fun d hd => (explained_addData c htidy d hd).isLexical

theorem explained_addLast {operand : Operand Expr} {fault : Option Kind}
    (htidy : operand.Tidy fun e => e.term.Tidy) (hfault : ∀ kind ∈ fault, kind.Tidy)
    {r : Reading} : ∀ d ∈ (addLast c operand fault r).2, d.IsExplained c.symbols := by
  intro d hd
  unfold addLast at hd
  split at hd
  · obtain rfl := Option.some.inj hd
    exact Break.explained_diagnostic c htidy
  · split at hd
    · rename_i heval
      obtain rfl := Option.some.inj hd
      exact Or.inr (Expr.isUnknown_eval c heval)
    · obtain ⟨kind, hkind, rfl⟩ := Option.map_eq_some_iff.mp hd
      exact Or.inl (hfault kind hkind)

/-- Only an operand can fail for a reason of its own: a branch has to stay in its page. -/
theorem explained_addOperand {kind : OperandKind} {operand : Operand Argument}
    (htidy : operand.Tidy Argument.Tidy) {r : Reading} :
    ∀ d ∈ (addOperand c kind operand r).2,
      d.IsExplained c.symbols ∨ d.kind = .branchOutOfPage := by
  intro d hd
  unfold addOperand at hd
  split at hd
  · obtain rfl := Option.some.inj hd
    exact Or.inl (Break.explained_diagnostic c htidy)
  · cases hd
  · -- a register
    unfold addRegister at hd
    split at hd
    · rename_i heval
      obtain rfl := Option.some.inj hd
      exact Or.inl (RegisterTerm.explained_eval c heval)
    · split_ifs at hd
      · obtain rfl := Option.some.inj hd
        exact Or.inl (Or.inl nofun)
      · cases hd
  · -- an expression
    unfold addExpression at hd
    split at hd
    · rename_i heval
      obtain rfl := Option.some.inj hd
      exact Or.inl (Or.inr (Expr.isUnknown_eval c heval))
    · dsimp only at hd
      split at hd
      · split_ifs at hd <;> cases hd
      · -- a short branch, whose target can be in another page
        split_ifs at hd
        · obtain rfl := Option.some.inj hd
          exact Or.inr rfl
        · cases hd
      · cases hd

end Reading

/-- **What can be wrong with a single statement**: its text, a name without a value, or a branch
that leaves its page. -/
theorem Shape.explained_resolve {s : Shape} (htidy : s.operation.Tidy) {d : Diagnostic}
    (h : (s.resolve c).status = .failed d) :
    d.IsExplained c.symbols ∨ d.kind = .branchOutOfPage := by
  have hd : d ∈ (s.progress c).2 := by
    rw [← error_resolve, h]
    rfl
  unfold progress at hd
  cases hop : s.operation with
  | data list =>
    rw [hop] at htidy hd
    exact Or.inl (Reading.explained_addData c htidy d hd)
  | equate operand fault =>
    rw [hop] at htidy hd
    exact Or.inl (Reading.explained_addLast c htidy.1 htidy.2 d hd)
  | origin operand fault =>
    rw [hop] at htidy hd
    exact Or.inl (Reading.explained_addLast c htidy.1 htidy.2 d hd)
  | instruction i operand list =>
    rw [hop] at htidy hd
    dsimp only at hd
    unfold Reading.addInstruction at hd
    split at hd
    · rename_i x e hx
      have hd' : d ∈ (Reading.addOperand c i.operand operand
          { label := s.label, instruction := some i, size := i.size }).2 := by
        rw [hx]
        exact hd
      exact Reading.explained_addOperand c htidy.1 d hd'
    · exact Or.inl (Reading.explained_addData c htidy.2 d hd)
  | malformed e =>
    rw [hop] at htidy hd
    obtain rfl := Option.some.inj hd
    exact Or.inl (Or.inl htidy)
  | empty | page | finish =>
    rw [hop] at hd
    cases hd

/-- **An unknown name that is reported has no value** in the table that the statement was read
with. -/
theorem Shape.isUnknown_resolve {s : Shape} (htidy : s.operation.Tidy) {d : Diagnostic}
    (h : (s.resolve c).status = .failed d) (hkind : d.kind = .undefinedSymbol) :
    d.IsUnknown c.symbols := by
  rcases explained_resolve c htidy h with (htext | hunknown) | hbranch
  · rw [hkind] at htext
    exact absurd .undefinedSymbol htext
  · exact hunknown
  · rw [hbranch] at hkind
    cases hkind

/-- **No error of a single statement is a second definition or a change of size.** -/
theorem Shape.kind_resolve_ne {s : Shape} (htidy : s.operation.Tidy) {d : Diagnostic}
    (h : (s.resolve c).status = .failed d) :
    d.kind ≠ .duplicateSymbol ∧ d.kind ≠ .sizeChanged := by
  rcases explained_resolve c htidy h with (hkind | ⟨n, rfl, _⟩) | hkind
  · constructor <;> intro heq <;> rw [heq] at hkind
    · exact hkind .duplicateSymbol
    · exact hkind .sizeChanged
  · show Kind.undefinedSymbol ≠ _ ∧ Kind.undefinedSymbol ≠ _
    decide
  · rw [hkind]
    decide

end Cosmac
