import Cosmac.Proofs.FirstDefinition

/-!
# References to names that are defined later

A name has a value in the second pass if it is predefined, or if the statement that defines it first
is a label: the layout has come by that label, and no statement rewrites its symbol
(`Assembly.lookup_layout_of_definedBy`, `Assembly.exists_context`).  So

* an unknown name that is reported is defined by nothing, or first by an equate
  (`Assembly.unknown_generate`);
* an equate whose term is known in this sense has its value behind both passes, wherever the names
  in it are defined (`Assembly.valueOf_equate`).

Predefined symbols need not have different names here: the first of two that are alike counts, and
that there is one is all that matters.
-/

namespace Cosmac

open Cosmac.Symbol

/-! ### Predefined symbols -/

namespace Assembler

/-- The name is defined before the program. -/
def Predefines (s : Assembler) (n : Text) : Prop :=
  Text.upper n ∈ s.defines.map fun entry => Text.upper entry.1

instance (s : Assembler) (n : Text) : Decidable (s.Predefines n) :=
  inferInstanceAs (Decidable (_ ∈ _))

theorem isSome_lookup_define (a : Assembly) (name : Text) (v : Int) (n : Text) :
    (((a.define name (some v)).toOption.getD a).context.symbols.lookup n).isSome = true ↔
      (a.context.symbols.lookup n).isSome = true ∨ Text.upper n = Text.upper name := by
  cases hold : a.context.symbols.lookup name with
  | some old =>
    have hkept : (a.define name (some v)).toOption.getD a = a := by
      unfold Assembly.define SymbolTable.define
      rw [hold]
      rfl
    rw [hkept]
    refine ⟨Or.inl, ?_⟩
    rintro (h | h)
    · exact h
    · rw [SymbolTable.lookup_congr _ h, hold]
      rfl
  | none =>
    rw [Assembly.define_of_new hold]
    show ((SymbolTable.insert _ _).lookup n).isSome = true ↔ _
    rw [SymbolTable.lookup_insert]
    by_cases h : Text.upper n = Text.upper name
    · simp [SymbolTable.newSymbol, h]
    · simp [SymbolTable.newSymbol, h, Ne.symm h]

theorem isSome_lookup_seed (s : Assembler) (n : Text) :
    (s.seed.context.symbols.lookup n).isSome = true ↔ s.Predefines n := by
  have hfold : ∀ (entries : List (Text × Int)) (a : Assembly),
      ((entries.foldl (fun assembly entry =>
        (assembly.define entry.1 (some entry.2)).toOption.getD assembly) a).context.symbols.lookup
          n).isSome = true ↔
      (a.context.symbols.lookup n).isSome = true ∨
        Text.upper n ∈ entries.map fun entry => Text.upper entry.1 := by
    intro entries
    induction entries with
    | nil => intro a; simp
    | cons entry rest ih =>
      intro a
      rw [List.foldl_cons, ih, isSome_lookup_define, List.map_cons, List.mem_cons, or_assoc]
  have hempty : (({} : Assembly).context.symbols.lookup n).isSome = false := rfl
  unfold seed Predefines
  rw [hfold, hempty]
  simp

/-- The predefined symbols are collected, and each has a value. -/
theorem exists_collect_seed (s : Assembler) :
    ∃ ds : List Symbol, s.seed.context.symbols = ⟨collect ds⟩ ∧
      ∀ d ∈ ds, Text.upper d.name = d.name ∧ d.index = predefinedIndex ∧
        d.value.isSome = true := by
  refine s.seed_induction (P := fun t => ∃ ds : List Symbol, t = ⟨collect ds⟩ ∧
      ∀ d ∈ ds, Text.upper d.name = d.name ∧ d.index = predefinedIndex ∧ d.value.isSome = true)
    ⟨[], rfl, List.forall_mem_nil _⟩ ?_
  rintro t name v ⟨ds, rfl, hds⟩ hnew
  refine ⟨ds ++ [SymbolTable.newSymbol name (some v) predefinedIndex none], ?_, ?_⟩
  · have hbind := SymbolTable.bind_collect (fun d hd => (hds d hd).1) name (some v)
      predefinedIndex none
    unfold SymbolTable.bind at hbind
    rw [hnew] at hbind
    exact hbind
  · refine List.forall_mem_append.mpr ⟨hds, List.forall_mem_singleton.mpr ?_⟩
    exact ⟨Text.upper_upper name, rfl, rfl⟩

end Assembler

/-! ### The first definition of a name -/

/-- The first statement that defines the name. -/
def Passes.definer? (ps : List Pair) (n : Text) : Option Pair :=
  ps.find? fun p => p.2.statement.reading.label.any fun name => Text.upper name == Text.upper n

/-- The name is not predefined, and the statement is the first that defines it. -/
structure Assembler.DefinedBy (s : Assembler) (lines : List Text) (n : Text) (p : Passes.Pair) :
    Prop where
  /-- It is not predefined. -/
  new : ¬ s.Predefines n
  /-- This is the first definition. -/
  definer : Passes.definer? (s.seed.load lines).passes n = some p

namespace Assembly

variable {s : Assembler} {lines : List Text} {n : Text} {p : Passes.Pair}

/-- What the layout finds under a name: the first of all its definitions. -/
theorem find?_layout (s : Assembler) (lines : List Text) (n : Text) :
    ∃ ds : List Symbol, (∀ d ∈ ds, d.index = predefinedIndex ∧ d.value.isSome = true) ∧
      ((ds.find? (·.name == Text.upper n)).isSome = true ↔ s.Predefines n) ∧
      ∃ marked, (s.seed.load lines).layout.context.symbols.lookup n
        = ((ds.find? (·.name == Text.upper n)).or
            (((s.seed.load lines).passes.filterMap Passes.initial?).find?
              (·.name == Text.upper n))).map fun d => { d with duplicate := marked } := by
  obtain ⟨ds, hseed, hds⟩ := s.exists_collect_seed
  refine ⟨ds, fun d hd => (hds d hd).2, ?_, ?_⟩
  · rw [← s.isSome_lookup_seed, hseed, SymbolTable.lookup_collect]
    unfold first
    rw [Option.isSome_map]
  · rw [symbols_layout_of_collect (fun d hd => (hds d hd).1) hseed, SymbolTable.lookup_collect,
      ← List.find?_append]
    exact ⟨_, rfl⟩

/-- **A predefined symbol has a value in the layout**, and no statement has its position. -/
theorem lookup_layout_of_predefines (lines : List Text) (h : s.Predefines n) :
    ∃ symbol, (s.seed.load lines).layout.context.symbols.lookup n = some symbol ∧
      symbol.index = predefinedIndex ∧ symbol.value.isSome = true := by
  obtain ⟨ds, hds, hpredefines, marked, hlookup⟩ := find?_layout s lines n
  obtain ⟨d, hd⟩ := Option.isSome_iff_exists.mp (hpredefines.mpr h)
  rw [hd, Option.some_or, Option.map_some] at hlookup
  exact ⟨_, hlookup, hds d (List.mem_of_find?_eq_some hd)⟩

/-- What the layout finds under a name that is not predefined: what its first definer defines. -/
theorem lookup_layout_of_new (lines : List Text) (hnew : ¬ s.Predefines n) :
    ∃ marked, (s.seed.load lines).layout.context.symbols.lookup n
      = ((Passes.definer? (s.seed.load lines).passes n).bind Passes.initial?).map
          fun d => { d with duplicate := marked } := by
  obtain ⟨ds, hds, hpredefines, marked, hlookup⟩ := find?_layout s lines n
  have hnone : ds.find? (·.name == Text.upper n) = none := by
    rwa [← Option.not_isSome_iff_eq_none, hpredefines]
  refine ⟨marked, ?_⟩
  unfold Passes.definer?
  rw [hlookup, hnone, Option.none_or, List.find?_filterMap]
  simp only [Passes.any_initial]

/-- **A name that a statement defines first has that statement's value in the layout.** -/
theorem lookup_layout_of_definedBy (h : s.DefinedBy lines n p) :
    ∃ name marked, p.2.statement.reading.label = some name ∧ Text.upper name = Text.upper n ∧
      (s.seed.load lines).layout.context.symbols.lookup n
        = some ⟨Text.upper name, p.1.before.definedValue p.1.statement, marked,
            p.2.statement.index, some p.2.statement.line⟩ := by
  obtain ⟨marked, hlookup⟩ := lookup_layout_of_new lines h.new
  have hany := List.find?_some h.definer
  obtain ⟨name, hname, hupper⟩ := (Option.any_eq_true _ _).mp hany
  refine ⟨name, marked, hname, beq_iff_eq.mp hupper, ?_⟩
  rw [hlookup, h.definer, Option.bind_some, Passes.initial_eq hname, Option.map_some]

theorem mem_passes_of_definedBy (h : s.DefinedBy lines n p) : p ∈ (s.seed.load lines).passes :=
  List.mem_of_find?_eq_some h.definer

/-- **Behind both passes a name has the value of its first definition.** -/
theorem valueOf_of_definedBy (h : s.DefinedBy lines n p) :
    (s.seed.generate lines).context.symbols.valueOf n = Passes.finalValue p := by
  obtain ⟨name, marked, hname, hupper, hlookup⟩ := lookup_layout_of_definedBy h
  have hp := mem_passes_of_definedBy h
  show SymbolTable.valueOf (s.seed.load lines).layout.code.context.symbols n = _
  unfold SymbolTable.valueOf
  rw [symbols_code, SymbolTable.lookup_rewriteAll_of_mem (nodup_index_codeRun s.seed lines)
    (List.mem_map_of_mem (snd_mem_of_mem_passes hp)) hlookup rfl, SymbolTable.lookup_rewrite,
    hlookup, Option.map_some, redefine_layout hp hname hupper]
  rfl

end Assembly

/-! ### Names that are known while code is generated -/

namespace Coding

/-- The step was made with a table in which the name has the value. -/
def Step.Knows (st : Step) (n : Text) (v : Int) : Prop :=
  ∃ c layout s, c.symbols.valueOf n = some v ∧ st = (step c layout s).1

/-- **A step that reports an unknown name** was made with a table in which that name has no
value. -/
theorem unknown_step (c : Context) (layout : Option Nat) (s : Statement) :
    ∀ d ∈ (step c layout s).1.errors, d.kind = .undefinedSymbol →
      ∃ n, d.detail = some n ∧ c.symbols.valueOf n = none := by
  intro d hd hkind
  have hdefinition : d ∉ (checkDefinition c (s.parse c)).1 := by
    intro hmem
    rw [kind_checkDefinition c _ d hmem] at hkind
    cases hkind
  rcases step_cases c layout s with
    ⟨e, he, h⟩ | ⟨_, h⟩ | ⟨_, room, _, _, h⟩ | ⟨_, _, h⟩ <;> rw [h] at hd
  · -- the line is added, the kind and the name are those of the statement
    obtain rfl := List.mem_singleton.mp hd
    obtain ⟨n, rfl, hvalue⟩ := Shape.isUnknown_resolve c (Shape.tidy_read s.text) he hkind
    exact ⟨n, rfl, hvalue⟩
  · exact absurd hd hdefinition
  · rcases List.mem_append.mp hd with hd | hd
    · exact absurd hd hdefinition
    · rw [List.mem_singleton.mp hd] at hkind
      cases hkind
  · exact absurd hd hdefinition

theorem Step.Knows.detail_ne {st : Step} {n : Text} {v : Int} (h : st.Knows n v) :
    ∀ d ∈ st.errors, d.kind = .undefinedSymbol → d.detail ≠ some n := by
  obtain ⟨c, layout, s, hvalue, rfl⟩ := h
  intro d hd hkind hdetail
  obtain ⟨m, hm, hnone⟩ := unknown_step c layout s d hd hkind
  obtain rfl := Option.some.inj (hdetail.symm.trans hm)
  simp [hvalue] at hnone

end Coding

namespace Assembly

variable {s : Assembler} {lines : List Text} {n : Text} {p : Passes.Pair}

/-- **What no equate defines is found at every step as the layout left it.** -/
theorem exists_context {a : Assembly}
    (hfree : ∀ symbol, a.layout.context.symbols.lookup n = some symbol →
      ∀ st ∈ a.layout.codeRun.1, st.statement.reading.status = .equate →
        symbol.index ≠ st.statement.index) :
    ∀ st ∈ a.layout.codeRun.1, ∃ c layout s',
      c.symbols.lookup n = a.layout.context.symbols.lookup n ∧
        st = (Coding.step c layout s').1 := by
  have hbinds := a.binds_codeRun
  rw [codeRun_layout] at hfree hbinds ⊢
  -- the symbol stays, and so do the names in the table, among which are all labels
  refine Coding.forall_run (I := fun c =>
      c.symbols.lookup n = a.layout.context.symbols.lookup n ∧
      c.symbols.symbols.map Symbol.blank = a.layout.context.symbols.symbols.map Symbol.blank)
    (Q := fun st => st ∈ _) (fun c layout s' hc hst => ?_) ⟨rfl, rfl⟩ fun _ => id
  have hstep := Coding.symbols_step layout
    (SymbolTable.binds_of_map_blank hc.2 ((Coding.binds_step c layout s' _).mp (hbinds _ hst)))
  refine ⟨⟨c, layout, s', hc.1, rfl⟩, ?_⟩
  rw [hstep, SymbolTable.map_blank_rewrite, SymbolTable.lookup_rewrite, hc.1]
  refine ⟨?_, hc.2⟩
  cases hsymbol : a.layout.context.symbols.lookup n with
  | none => rfl
  | some symbol => rw [Option.map_some, SymbolTable.redefine_of_ne (hfree symbol hsymbol _ hst)]

/-- **A symbol that no equate defines has its value at every step.** -/
theorem knows_of_lookup {a : Assembly} {symbol : Symbol} {v : Int}
    (hsymbol : a.layout.context.symbols.lookup n = some symbol) (hvalue : symbol.value = some v)
    (hfree : ∀ st ∈ a.layout.codeRun.1, st.statement.reading.status = .equate →
      symbol.index ≠ st.statement.index) :
    ∀ st ∈ a.layout.codeRun.1, st.Knows n v := by
  intro st hst
  obtain ⟨c, layout, s', hlookup, hstep⟩ := exists_context (n := n) (a := a) (fun found hfound => by
    rw [hsymbol] at hfound
    obtain rfl := Option.some.inj hfound
    exact hfree) st hst
  rw [hsymbol] at hlookup
  exact ⟨c, layout, s', SymbolTable.valueOf_eq_some_iff.mpr ⟨symbol, hlookup, hvalue⟩, hstep⟩

theorem knows_of_predefines (lines : List Text) (h : s.Predefines n) :
    ∃ v, ∀ st ∈ (s.seed.load lines).layout.codeRun.1, st.Knows n v := by
  obtain ⟨symbol, hsymbol, hindex, hvalue⟩ := lookup_layout_of_predefines lines h
  obtain ⟨v, hv⟩ := Option.isSome_iff_exists.mp hvalue
  refine ⟨v, knows_of_lookup hsymbol hv fun st _ _ heq => ?_⟩
  rw [hindex] at heq
  cases heq

/-- **A name that a label defines first is known at every step**, also before the label. -/
theorem knows_of_label (h : s.DefinedBy lines n p)
    (hlabel : p.2.statement.reading.equate = false) :
    ∀ st ∈ (s.seed.load lines).layout.codeRun.1, st.Knows n p.1.before.pc := by
  obtain ⟨name, marked, _, _, hlookup⟩ := lookup_layout_of_definedBy h
  have hp := mem_passes_of_definedBy h
  have hvalue : p.1.before.definedValue p.1.statement = some p.1.before.pc := by
    have hne : p.2.statement.reading.status ≠ .equate := by
      intro hstatus
      simp [equate_of_status hp hstatus] at hlabel
    rw [← finalValue_of_ne hp hne]
    exact if_pos hlabel
  refine knows_of_lookup hlookup hvalue fun st hst hstatus heq => ?_
  -- an equate at the position of the label would be the label
  have hsame : p.2.statement = st.statement :=
    List.inj_on_of_nodup_map (nodup_index_codeRun s.seed lines)
      (List.mem_map_of_mem (snd_mem_of_mem_passes hp)) (List.mem_map_of_mem hst)
      (Int.natCast_inj.mp heq)
  rw [← hsame] at hstatus
  simp [equate_of_status hp hstatus] at hlabel

/-- **An unknown name that is reported** is defined by nothing, or first by an equate. -/
theorem unknown_generate (s : Assembler) (lines : List Text) :
    ∀ d ∈ (s.seed.generate lines).report.errors, d.kind = .undefinedSymbol →
      ∃ n, d.detail = some n ∧ ¬ s.Predefines n ∧
        ∀ p, s.DefinedBy lines n p → p.2.statement.reading.equate = true := by
  intro d hd hkind
  obtain ⟨st, hst, hmem⟩ := List.mem_flatMap.mp hd
  have hdetail : ∃ n, d.detail = some n := by
    have hpair := hst
    rw [← map_snd_passes] at hpair
    obtain ⟨p, hp, rfl⟩ := List.mem_map.mp hpair
    obtain ⟨c₁, c₂, s', rfl, _⟩ := exists_of_mem_passes hp
    obtain ⟨n, hn, _⟩ := Coding.unknown_step _ _ _ d hmem hkind
    exact ⟨n, hn⟩
  obtain ⟨n, hn⟩ := hdetail
  refine ⟨n, hn, fun hpredefines => ?_, fun p hp => ?_⟩
  · obtain ⟨v, hknows⟩ := knows_of_predefines lines hpredefines
    exact (hknows st hst).detail_ne d hmem hkind hn
  · by_contra hlabel
    have hknows := knows_of_label hp (Bool.eq_false_iff.mpr hlabel)
    exact (hknows st hst).detail_ne d hmem hkind hn

end Assembly

/-! ### Equates -/

@[simp] theorem Value.word_shift (v : Value) (offset : Option Int) :
    word (v.shift offset).value = word (v.value + offset.getD 0) := by
  cases offset with
  | none => simp [Value.shift]
  | some amount => exact word_word _

/-- The term stands for this number where the statement generates code: it is the location counter,
a constant, or a name that a label defines first. -/
inductive Assembler.Stands (s : Assembler) (lines : List Text) (p : Passes.Pair) :
    Term → Int → Prop
  /-- The location counter. -/
  | here : Stands s lines p .here p.2.start
  /-- A constant. -/
  | constant (n : Nat) : Stands s lines p (.constant n) n
  /-- A hexadecimal constant that looks like a name, and that nothing defines as one. -/
  | hexWord {n : Text} (hnew : ¬ s.Predefines n)
      (hnone : Passes.definer? (s.seed.load lines).passes n = none)
      (hhex : Token.isHexWord n = true) : Stands s lines p (.name n) (Token.number 16 n)
  /-- A name that a label defines first, before the statement or behind it. -/
  | label {n : Text} {q : Passes.Pair} (hdefined : s.DefinedBy lines n q)
      (hlabel : q.2.statement.reading.equate = false) : Stands s lines p (.name n) q.1.before.pc

namespace Assembly

variable {s : Assembler} {lines : List Text} {n : Text} {p : Passes.Pair}

/-- What an equate is read as. -/
theorem resolve_equate {c : Context} {label : Option Text} {term : Term} {offset : Option Int}
    {w : Value} (heval : term.eval c = .ok w) :
    (Shape.resolve c ⟨label, .equate (.read ⟨.plain, term, offset⟩) none⟩).status = .equate ∧
      (Shape.resolve c ⟨label, .equate (.read ⟨.plain, term, offset⟩) none⟩).value
        = (w.shift offset).value := by
  unfold Shape.resolve Reading.addLast Expr.eval
  simp [heval, Selector.select, Reading.settle, Reading.setValue]

/-- **An equate whose term has a value has its own value behind both passes.** -/
theorem finalValue_equate (hp : p ∈ (s.seed.load lines).passes) {label : Option Text}
    {term : Term} {offset : Option Int}
    (hshape : p.2.statement.shape = ⟨label, .equate (.read ⟨.plain, term, offset⟩) none⟩)
    {c : Context} {layout : Option Nat} {s' : Statement} (hstep : p.2 = (Coding.step c layout s').1)
    {w : Value} (heval : term.eval c = .ok w) :
    Passes.finalValue p = some (word (w.value + offset.getD 0)) := by
  have hword := isWord_iff.mp (isWord_passes s lines p hp).2.2
  rw [hstep, Statement.shape_eq_of_unread_eq (Coding.unread_step c layout s')] at hshape
  obtain ⟨hstatus, hvalue⟩ := @resolve_equate c label term offset w heval
  rw [← hshape] at hstatus hvalue
  have hstatus' : p.2.statement.reading.status = .equate := by
    rw [hstep]
    exact (Coding.status_step_eq_iff c layout s' rfl).mpr hstatus
  have hvalue' : p.2.statement.reading.value = (w.shift offset).value := by
    rw [hstep]
    exact (Coding.value_step c layout s').trans hvalue
  unfold Passes.finalValue
  rw [equate_of_status hp hstatus', hstatus', ← hword, hvalue', Value.word_shift]
  rfl

theorem valueOf_equate (h : s.DefinedBy lines n p) {label : Option Text} {term : Term}
    {offset : Option Int}
    (hshape : p.2.statement.shape = ⟨label, .equate (.read ⟨.plain, term, offset⟩) none⟩)
    {v : Int} (hv : s.Stands lines p term v) :
    (s.seed.generate lines).context.symbols.valueOf n = some (word (v + offset.getD 0)) := by
  have hp := mem_passes_of_definedBy h
  obtain ⟨c₁, c₂, s', hpair, _⟩ := exists_of_mem_passes hp
  have hstep : p.2 = (Coding.step c₂ (some (s'.parse c₁).reading.size) s').1 := by rw [hpair]; rfl
  rw [valueOf_of_definedBy h]
  cases hv with
  | here =>
    rw [finalValue_equate hp hshape hstep (w := { value := c₂.pc, size := 2 }) rfl, hstep,
      Coding.start_step]
  | constant m => exact finalValue_equate hp hshape hstep (w := .ofNat m) rfl
  | hexWord hnew hnone hhex =>
    obtain ⟨marked, hlayout⟩ := lookup_layout_of_new lines hnew
    rw [hnone, Option.bind_none, Option.map_none] at hlayout
    obtain ⟨c, layout, s'', hlookup, hstep⟩ := exists_context (a := s.seed.load lines)
      (fun symbol hsymbol => by rw [hlayout] at hsymbol; cases hsymbol) p.2
      (snd_mem_of_mem_passes hp)
    refine finalValue_equate hp hshape hstep (w := .ofNat (Token.number 16 _)) ?_
    show c.nameValue _ = _
    unfold Context.nameValue
    rw [hlookup, hlayout, if_pos hhex]
  | label hdefined hlabel =>
    obtain ⟨c, layout, s'', hvalue, hstep⟩ :=
      knows_of_label hdefined hlabel p.2 (snd_mem_of_mem_passes hp)
    exact finalValue_equate hp hshape hstep (c.nameValue_of_valueOf _ hvalue)

/-- **Forward references to labels resolve.**  The passes go over the statements up to the end.  An
unknown name that is reported is neither predefined nor defined by a label first.  A name that a
label defines first has the location counter of that label.  And an equate that defines its name
first has the value of its term and its offset, if the term is the location counter, a constant or
a name that a label defines first. -/
theorem forward_references_resolve (s : Assembler) (lines : List Text) :
    (s.seed.load lines).passes.map (·.2.statement.unread)
      = (Statement.reach (s.seed.load lines).statements).map Statement.unread ∧
    (∀ d ∈ (s.seed.generate lines).report.errors, d.kind = .undefinedSymbol →
      ∃ n, d.detail = some n ∧ ¬ s.Predefines n ∧
        ∀ p, s.DefinedBy lines n p → p.2.statement.reading.equate = true) ∧
    (∀ n p, s.DefinedBy lines n p → p.2.statement.reading.equate = false →
      (s.seed.generate lines).context.symbols.valueOf n = some p.1.before.pc) ∧
    ∀ n p label term offset v, s.DefinedBy lines n p →
      p.2.statement.shape = ⟨label, .equate (.read ⟨.plain, term, offset⟩) none⟩ →
      s.Stands lines p term v →
      (s.seed.generate lines).context.symbols.valueOf n = some (word (v + offset.getD 0)) := by
  refine ⟨map_unread_passes _, unknown_generate s lines, fun n p h hlabel => ?_,
    fun n p label term offset v h hshape hv => valueOf_equate h hshape hv⟩
  rw [valueOf_of_definedBy h]
  exact if_pos hlabel

/-- An equate before the label that it asks for, which is spelled like a number, and another one
behind its use, which is reported. -/
theorem forward_references_resolve_mixed :
    let s : Assembler := { defines := [("BASE".toList, 16)] }
    let lines := ["K = AA-2", "LDI M", "M = L", "AA: DC NOWHERE", "L: END", "NOWHERE: NOP"].map
      String.toList
    let done := s.seed.generate lines
    done.report.errors.map (·.detail) = [some "M".toList, some "NOWHERE".toList] ∧
      (∀ d ∈ done.report.errors, d.kind = .undefinedSymbol →
        ∃ n, d.detail = some n ∧ ¬ s.Predefines n ∧
          ∀ p, s.DefinedBy lines n p → p.2.statement.reading.equate = true) ∧
      ∃ p, s.DefinedBy lines "AA".toList p ∧ p.1.before.pc = 2 ∧
        done.context.symbols.valueOf "AA".toList = some p.1.before.pc ∧
        done.context.symbols.valueOf "K".toList = some (word (p.1.before.pc + -2)) := by
  intro s lines done
  obtain ⟨_, hunknown, hlabels, hequates⟩ := forward_references_resolve s lines
  have haa : s.DefinedBy lines "AA".toList
      ((s.seed.load lines).passes.get ⟨3, by decide +kernel⟩) :=
    ⟨by decide +kernel, by decide +kernel⟩
  have hk : s.DefinedBy lines "K".toList
      ((s.seed.load lines).passes.get ⟨0, by decide +kernel⟩) :=
    ⟨by decide +kernel, by decide +kernel⟩
  have hlabel : ((s.seed.load lines).passes.get
      ⟨3, by decide +kernel⟩).2.statement.reading.equate = false := by decide +kernel
  refine ⟨by decide +kernel, hunknown, _, haa, by decide +kernel, hlabels _ _ haa hlabel, ?_⟩
  exact hequates _ _ (some "K".toList) (.name "AA".toList) (some (-2)) _ hk (by decide +kernel)
    (.label haa hlabel)

end Assembly

end Cosmac
