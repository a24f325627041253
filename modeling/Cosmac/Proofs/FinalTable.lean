import Cosmac.Proofs.Definitions
import Cosmac.Proofs.Parts

/-!
# Code and the table at the end

While code is generated every equate gives its symbol the value that it has then.  A statement that
stands before the equate was coded with the value of the layout, so the table that is printed at the
end may not be the one that its code was made with.

`codeAgrees_iff_equatesSettled` says exactly when it is: every statement with code, read again with
the table at the end, has the same code if and only if, for each statement with code and each equate
behind it, the statement has the same code with that one equate made before it.  A single equate at
a time is enough, because no two parts of a statement can make up for each other.
-/

namespace Cosmac

/-! ### One statement -/

/-- **The code of a statement behind several definitions** is the same exactly if it is the same
behind each equate among them alone. -/
theorem Shape.code_rewriteAll_iff {c : Context} {s : Shape} {ss : List Statement}
    (hnodup : (ss.map (·.index)).Nodup) (hne : (s.resolve c).code ≠ []) :
    (s.resolve { c with symbols := c.symbols.rewriteAll ss }).code = (s.resolve c).code ↔
      ∀ e ∈ ss, e.reading.status = .equate →
        (s.resolve { c with symbols := c.symbols.rewrite e }).code = (s.resolve c).code := by
  have hsome := c.symbols.isSome_lookup_rewriteAll
  rw [code_resolve_iff_bytes (hsome ss) hne]
  constructor
  · intro h e he _
    refine (code_resolve_iff_bytes (hsome [e]) hne).mpr fun part hpart => ?_
    refine Part.bytes_eq_of_lookup c fun n _ => ?_
    rcases SymbolTable.lookup_rewrite_of_mem hnodup he n with hsame | hlast
    · exact Or.inl hsame
    · exact Or.inr ⟨_, hlast, h part hpart⟩
  · intro h part hpart
    -- the last equate of each name decides, so one at a time is enough
    refine Part.bytes_eq_of_lookup c fun n _ => ?_
    rcases SymbolTable.lookup_rewriteAll hnodup n with hsame | ⟨e, he, hequate, hlast⟩
    · exact Or.inl hsame
    · have hcode := h e he hequate
      exact Or.inr ⟨_, hlast, (code_resolve_iff_bytes (hsome [e]) hne).mp hcode part hpart⟩

namespace Coding

/-- The code of a step is what its statement has in the context of the step. -/
theorem code_step {c : Context} {layout : Option Nat} {s : Statement}
    (h : (step c layout s).1.code ≠ []) :
    (step c layout s).1.code = (s.shape.resolve c).code := by
  rcases step_cases c layout s with
    ⟨d, _, hstep⟩ | ⟨_, hstep⟩ | ⟨_, _, _, _, hstep⟩ | ⟨_, _, hstep⟩ <;> rw [hstep] at h ⊢
  · -- a step in error, at the end or with another size has no code
    exact absurd rfl h
  · exact absurd rfl h
  · exact absurd rfl h
  · rfl

@[simp] theorem pass_run (c : Context) (layout : List Nat) (ss : List Statement) :
    (run c layout ss).2.pass = c.pass := by
  induction ss generalizing c layout with
  | nil => rfl
  | cons s rest ih =>
    cases hends : s.ends with
    | true =>
      rw [run_cons_of_ends c layout rest hends]
      exact pass_step ..
    | false =>
      rw [run_cons c layout rest hends]
      exact (ih _ _).trans (pass_step ..)

/-- **A step of a pass starts where the pass over the statements before it ends.** -/
theorem run_take {c : Context} {layout : List Nat} {ss : List Statement} {k : Nat} {st : Step}
    (h : (run c layout ss).1[k]? = some st) :
    (∃ s, st = (step (run c layout (ss.take k)).2 layout[k]? s).1) ∧
      (run c layout (ss.take k)).1 = (run c layout ss).1.take k := by
  induction ss generalizing c layout k with
  | nil =>
    rw [run, List.getElem?_nil] at h
    cases h
  | cons s rest ih =>
    cases hends : s.ends with
    | true =>
      rw [run_cons_of_ends c layout rest hends] at h ⊢
      cases k with
      | zero =>
        obtain rfl := Option.some.inj h
        exact ⟨⟨s, by rw [List.head?_eq_getElem?]; rfl⟩, rfl⟩
      | succ k =>
        rw [List.getElem?_cons_succ, List.getElem?_nil] at h
        cases h
    | false =>
      rw [run_cons c layout rest hends] at h ⊢
      cases k with
      | zero =>
        obtain rfl := Option.some.inj h
        exact ⟨⟨s, by rw [List.head?_eq_getElem?]; rfl⟩, rfl⟩
      | succ k =>
        obtain ⟨⟨s', hst⟩, htake⟩ := ih h
        rw [List.take_succ_cons, run_cons c layout _ hends, List.take_succ_cons, htake,
          ← List.getElem?_tail]
        exact ⟨⟨s', hst⟩, rfl⟩

theorem label_run (c : Context) (layout : List Nat) (ss : List Statement) :
    ∀ st ∈ (run c layout ss).1, st.statement.reading.label = st.statement.shape.label := by
  refine forall_run (I := fun _ => True) (Q := fun _ => True) (fun c layout s _ _ => ⟨?_, trivial⟩)
    trivial fun _ _ => trivial
  rw [label_step, Statement.shape_eq_of_unread_eq (unread_step c layout s)]

end Coding

/-! ### Whole programs -/

namespace Assembly

/-- The context in which the coding pass reaches a statement, by its number. -/
def contextAt (a : Assembly) (k : Nat) : Context :=
  (Coding.run (a.context.reset .final) a.sizes (a.statements.take k)).2

/-- The code of every statement is what the statement gives, where it stands, with the table at the
end. -/
def CodeAgrees (a : Assembly) : Prop :=
  ∀ st ∈ a.layout.codeRun.1, st.code ≠ [] →
    (Reading.ofText ⟨a.layout.code.context.symbols, st.start, .final⟩ st.statement.text).code
      = st.code

instance (a : Assembly) : Decidable a.CodeAgrees :=
  inferInstanceAs (Decidable (∀ st ∈ _, _))

/-- The code of every statement stays the same if any one equate behind it is made before it. -/
def EquatesSettled (a : Assembly) : Prop :=
  ∀ (k : Nat) (st : Coding.Step), a.layout.codeRun.1[k]? = some st → st.code ≠ [] →
    ∀ e ∈ a.layout.codeRun.1.drop k, e.statement.reading.status = .equate →
      (Reading.ofText (Coding.checkDefinition (a.layout.contextAt k) e.statement).2
        st.statement.text).code = st.code

variable {a : Assembly} {k : Nat} {st : Coding.Step}

/-- The table at a statement has been rewritten by the statements before it. -/
theorem symbols_contextAt (h : a.layout.codeRun.1[k]? = some st) :
    (a.layout.contextAt k).symbols
      = a.layout.context.symbols.rewriteAll ((a.layout.codeRun.1.take k).map (·.statement)) := by
  have htake := (Coding.run_take h).2
  have hsymbols := Coding.symbols_run (a.layout.context.reset .final) a.layout.sizes
    (a.layout.statements.take k) fun e he => by
      rw [htake] at he
      exact a.binds_codeRun e (List.mem_of_mem_take he)
  rw [htake] at hsymbols
  exact hsymbols

/-- The table at the end is the table at a statement, rewritten by that and all later ones. -/
theorem symbols_code_contextAt (h : a.layout.codeRun.1[k]? = some st) :
    a.layout.code.context.symbols
      = (a.layout.contextAt k).symbols.rewriteAll
          ((a.layout.codeRun.1.drop k).map (·.statement)) := by
  rw [symbols_code, symbols_contextAt h, ← SymbolTable.rewriteAll_append, ← List.map_append,
    List.take_append_drop]

theorem checkDefinition_contextAt (h : a.layout.codeRun.1[k]? = some st) {e : Coding.Step}
    (he : e ∈ a.layout.codeRun.1) :
    (Coding.checkDefinition (a.layout.contextAt k) e.statement).2
      = { a.layout.contextAt k with
          symbols := (a.layout.contextAt k).symbols.rewrite e.statement } := by
  have hbinds : (a.layout.contextAt k).symbols.Binds e.statement := by
    rw [symbols_contextAt h]
    exact SymbolTable.binds_of_map_blank (SymbolTable.map_blank_rewriteAll _ _)
      (a.binds_codeRun e he)
  rw [Coding.checkDefinition_eq hbinds (Coding.label_run _ _ _ e he)]

/-- At one statement, both sides of the main statement say the same. -/
theorem code_eq_iff_forall_equate
    (hnodup : ((a.layout.codeRun.1.map (·.statement)).map (·.index)).Nodup)
    (h : a.layout.codeRun.1[k]? = some st) (hne : st.code ≠ []) :
    (Reading.ofText ⟨a.layout.code.context.symbols, st.start, .final⟩ st.statement.text).code
        = st.code ↔
      ∀ e ∈ a.layout.codeRun.1.drop k, e.statement.reading.status = .equate →
        (Reading.ofText (Coding.checkDefinition (a.layout.contextAt k) e.statement).2
          st.statement.text).code = st.code := by
  obtain ⟨s, hst⟩ : ∃ s, st = (Coding.step (a.layout.contextAt k) a.layout.sizes[k]? s).1 :=
    (Coding.run_take h).1
  have hshape : st.statement.shape = s.shape := by
    rw [hst]
    exact Statement.shape_eq_of_unread_eq (Coding.unread_step ..)
  have hcode : (st.statement.shape.resolve (a.layout.contextAt k)).code = st.code := by
    rw [hst] at hne
    rw [hshape, hst]
    exact (Coding.code_step hne).symm
  have hstart : st.start = (a.layout.contextAt k).pc := by rw [hst, Coding.start_step]
  have hpass : (a.layout.contextAt k).pass = .final := Coding.pass_run ..
  have hlater : (((a.layout.codeRun.1.drop k).map (·.statement)).map (·.index)).Nodup :=
    (((List.drop_sublist k _).map _).map _).nodup hnodup
  show (st.statement.shape.resolve _).code = _ ↔ _
  rw [symbols_code_contextAt h, hstart, ← hpass, ← hcode,
    Shape.code_rewriteAll_iff hlater (by rw [hcode]; exact hne), List.forall_mem_map]
  refine forall₂_congr fun e he => ?_
  rw [checkDefinition_contextAt h (List.mem_of_mem_drop he)]
  rfl

/-- **The code agrees with the table at the end exactly if no equate comes too late**: if every
statement with code keeps it when one of the equates behind it is made before it. -/
theorem codeAgrees_iff_equatesSettled (s : Assembler) (lines : List Text) :
    (s.seed.load lines).CodeAgrees ↔ (s.seed.load lines).EquatesSettled := by
  have hnodup := nodup_index_codeRun s.seed lines
  constructor
  · intro h k st hst hne
    exact (code_eq_iff_forall_equate hnodup hst hne).mp (h st (List.mem_of_getElem? hst) hne)
  · intro h st hst hne
    obtain ⟨k, hk⟩ := List.mem_iff_getElem?.mp hst
    exact (code_eq_iff_forall_equate hnodup hk hne).mpr (h k st hk hne)

/-- No error is reported, and `X` is 12 in the table at the end, but it was FF when its value went
into the code. -/
theorem not_codeAgrees_hex_name :
    let lines := ["LDI X", "X = FF", "FF = #12", "END"].map String.toList
    (({} : Assembler).seed.generate lines).report.errorCount = 0 ∧
      ¬ (({} : Assembler).seed.load lines).CodeAgrees := by
  decide +kernel

end Assembly

end Cosmac
