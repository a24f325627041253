import Cosmac.Assembler
import Cosmac.Proofs.Reading
import Cosmac.Proofs.SymbolTable

/-!
# The two passes, step by step

What one step of the coding pass can do is said once, in `Coding.step_cases`, and what it does to
the symbols in `Coding.symbols_step`: it rewrites the value of the symbol that an equate defines
and nothing else, as long as the label of the statement is in the table.  After a layout every
label is (`Layout.binds_run`).

Both passes stop at the same statement, since the end of a program is told by its text.
`Passes.run` walks them side by side: `map_fst_run` and `map_snd_run` give back the trace of each.
A pass reads a statement from its text, so what an earlier pass made of it does not matter
(`Coding.run_congr`), and an assembly codes the statements that it laid out
(`Assembly.codeRun_layout`).
-/

namespace Cosmac

/-! ### Reading a statement -/

namespace Statement

/-- The statement as it stands in the source. -/
def unread (s : Statement) : Statement := { s with reading := {} }

/-- The shape of the statement's text. -/
def shape (s : Statement) : Shape := Shape.read s.text

/-- The text of the statement says that the program ends. -/
def ends (s : Statement) : Bool := decide (s.shape.operation = .finish)

theorem shape_eq_of_unread_eq {s s' : Statement} (h : s.unread = s'.unread) :
    s.shape = s'.shape := by
  show s.unread.shape = s'.unread.shape
  rw [h]

theorem isEnd_iff (s : Statement) : s.isEnd = true ↔ s.reading.status = .finish := by
  unfold isEnd
  exact beq_iff_eq

section Parse

variable (s : Statement) (c : Context)

/-- The end of the program is told by the text, in every context. -/
@[simp] theorem isEnd_parse : (s.parse c).isEnd = s.ends := by
  rw [Bool.eq_iff_iff, isEnd_iff, ends, decide_eq_true_iff]
  exact Shape.status_resolve_eq_finish_iff c s.shape

theorem status_parse_eq_finish_iff : (s.parse c).reading.status = .finish ↔ s.ends = true := by
  rw [← isEnd_iff, isEnd_parse]

theorem status_parse : (s.parse c).reading.status = s.shape.operation.status ∨
    ∃ d, (s.parse c).reading.status = .failed d :=
  Shape.status_resolve c s.shape

theorem status_parse_page (h : s.shape.operation = .page) : (s.parse c).reading.status = .page :=
  Shape.status_resolve_page c s.shape h

theorem isOrigin_of_status_parse (h : (s.parse c).reading.status = .origin) :
    s.shape.operation.isOrigin = true :=
  Shape.isOrigin_of_status_resolve c s.shape h

theorem status_parse_origin_first {c c' : Context} (hfirst : c.pass.isFinal = false)
    (h : (s.parse c').reading.status = .origin) : (s.parse c).reading.status = .origin :=
  Shape.status_resolve_origin_first s.shape hfirst h

theorem isEquate_of_status_parse (h : (s.parse c).reading.status = .equate) :
    s.shape.operation.isEquate = true :=
  Shape.isEquate_of_status_resolve c s.shape h

theorem size_parse_eq_zero (h : s.shape.operation.takesRoom = false) :
    (s.parse c).reading.size = 0 :=
  Shape.size_resolve_eq_zero c s.shape h

@[simp] theorem label_parse : (s.parse c).reading.label = s.shape.label :=
  Shape.label_resolve c s.shape

@[simp] theorem equate_parse : (s.parse c).reading.equate = s.shape.operation.isEquate :=
  Shape.equate_resolve c s.shape

end Parse

end Statement

@[simp]
theorem Context.symbols_move (c : Context) (s : Statement) : (c.move s).symbols = c.symbols := by
  unfold Context.move
  split <;> rfl

@[simp] theorem Context.pass_move (c : Context) (s : Statement) : (c.move s).pass = c.pass := by
  unfold Context.move
  split <;> rfl

/-! ### One step of the coding pass -/

/-- The table behind the definition that a statement makes while code is generated: an equate
gives the symbol that it defines the value that it has now. -/
def SymbolTable.rewrite (t : SymbolTable) (s : Statement) : SymbolTable :=
  match s.reading.label with
  | none => t
  | some name =>
    match t.lookup name with
    | none => t
    | some symbol =>
      if symbol.index = s.index ∧ s.reading.status = .equate then
        t.assign name (word s.reading.value)
      else t

theorem SymbolTable.rewrite_of_ne (t : SymbolTable) (s : Statement)
    (h : s.reading.status ≠ .equate) : t.rewrite s = t := by
  unfold SymbolTable.rewrite
  split
  · rfl
  · split
    · rfl
    · exact if_neg fun hequate => h hequate.2

/-- The errors of the definition that a statement makes. -/
def SymbolTable.duplicates (t : SymbolTable) (s : Statement) : List Diagnostic :=
  match s.reading.label with
  | none => []
  | some name =>
    match t.lookup name with
    | none => []
    | some symbol =>
      if symbol.index ≠ s.index then [.duplicate symbol.name (some s.line) symbol.line] else []

/-- The label of the statement, if it has one, is in the table. -/
def SymbolTable.Binds (t : SymbolTable) (s : Statement) : Prop :=
  ∀ name, s.shape.label = some name → (t.lookup name).isSome = true

namespace Coding

/-- Where the label is in the table, a definition reports a duplicate or rewrites the symbol of an
equate. -/
theorem checkDefinition_eq {c : Context} {s : Statement} (hbinds : c.symbols.Binds s)
    (hlabel : s.reading.label = s.shape.label) :
    checkDefinition c s
      = (c.symbols.duplicates s, { c with symbols := c.symbols.rewrite s }) := by
  unfold checkDefinition SymbolTable.duplicates SymbolTable.rewrite
  cases hname : s.reading.label with
  | none => rfl
  | some name =>
    -- the name is in the table, so the case in which it would be bound does not arise
    have hsome := hbinds name (hlabel.symm.trans hname)
    obtain ⟨symbol, hsymbol⟩ := Option.isSome_iff_exists.mp hsome
    simp only [hsymbol]
    by_cases hindex : symbol.index = s.index
    · by_cases hequate : s.reading.status = .equate
      · simp [hindex, hequate, SymbolTable.assign]
      · simp [hindex, hequate]
    · simp [hindex]

/-- A definition changes nothing but the symbols. -/
theorem checkDefinition_snd (c : Context) (s : Statement) :
    (checkDefinition c s).2 = { c with symbols := (checkDefinition c s).2.symbols } := by
  unfold checkDefinition
  split
  · rfl
  · split
    · unfold Context.bindLabel
      split <;> rfl
    · split
      · rfl
      · split <;> rfl

/-- The step of a statement that has not the room of the layout any more. -/
def resizedStep (c : Context) (room : Nat) (s : Statement) : Step × Context :=
  let after := (checkDefinition c s).2.advance room
  (⟨c.pc, resize s room,
    (checkDefinition c s).1 ++ [.phase room s.reading.size (some s.line)], [], after.pc⟩, after)

/-- The step of a statement that gives its code. -/
def emittedStep (c : Context) (s : Statement) : Step × Context :=
  let after := (checkDefinition c s).2.move s
  (⟨c.pc, s, (checkDefinition c s).1, s.reading.code, after.pc⟩, after)

/-- A statement without an error has changed its size or gives its code. -/
theorem codedStep_cases (c : Context) (layout : Option Nat) (s : Statement) :
    (∃ room, layout = some room ∧ room ≠ s.reading.size ∧
      codedStep c layout s = resizedStep c room s) ∨
    ((∀ room, layout = some room → room = s.reading.size) ∧
      codedStep c layout s = emittedStep c s) := by
  unfold codedStep
  cases layout with
  | none => exact Or.inr ⟨nofun, if_neg fun h => h rfl⟩
  | some room =>
    by_cases hroom : room = s.reading.size
    · refine Or.inr ⟨fun room' h => ?_, if_neg fun h => h hroom⟩
      rw [← Option.some.inj h, hroom]
    · exact Or.inl ⟨room, rfl, hroom, if_pos hroom⟩

/-- **What a step can do.**  The statement is in error, or it ends the program, or it has changed
its size, or it gives its code. -/
theorem step_cases (c : Context) (layout : Option Nat) (s : Statement) :
    (∃ d, (s.parse c).reading.status = .failed d ∧
      step c layout s = failedStep c layout (s.parse c) d) ∨
    ((s.parse c).reading.status = .finish ∧ step c layout s = endStep c (s.parse c)) ∨
    ((s.parse c).reading.status.error? = none ∧
      ∃ room, layout = some room ∧ room ≠ (s.parse c).reading.size ∧
        step c layout s = resizedStep c room (s.parse c)) ∨
    ((s.parse c).reading.status.error? = none ∧
      (∀ room, layout = some room → room = (s.parse c).reading.size) ∧
        step c layout s = emittedStep c (s.parse c)) := by
  cases h : (s.parse c).reading.status with
  | failed d => exact Or.inl ⟨d, rfl, by unfold step; simp only [h]⟩
  | finish => exact Or.inr (Or.inl ⟨rfl, by unfold step; simp only [h]⟩)
  | _ =>
    have hstep : step c layout s = codedStep c layout (s.parse c) := by
      unfold step
      simp only [h]
    rw [hstep]
    rcases codedStep_cases c layout (s.parse c) with hresized | hemitted
    · exact Or.inr (Or.inr (Or.inl ⟨rfl, hresized⟩))
    · exact Or.inr (Or.inr (Or.inr ⟨rfl, hemitted⟩))

section Step

variable (c : Context) (layout : Option Nat) (s : Statement)

/-- A step starts at the location counter. -/
@[simp] theorem start_step : (step c layout s).1.start = c.pc := by
  rcases step_cases c layout s with ⟨_, _, h⟩ | ⟨_, h⟩ | ⟨_, _, _, _, h⟩ | ⟨_, _, h⟩ <;>
    rw [h] <;> rfl

/-- A step stops where the next one starts. -/
@[simp] theorem stop_step : (step c layout s).1.stop = (step c layout s).2.pc := by
  rcases step_cases c layout s with ⟨_, _, h⟩ | ⟨_, h⟩ | ⟨_, _, _, _, h⟩ | ⟨_, _, h⟩ <;>
    rw [h] <;> rfl

/-- A step keeps the statement but for its reading. -/
@[simp] theorem unread_step : (step c layout s).1.statement.unread = s.unread := by
  rcases step_cases c layout s with ⟨_, _, h⟩ | ⟨_, h⟩ | ⟨_, _, _, _, h⟩ | ⟨_, _, h⟩ <;>
    rw [h] <;> rfl

theorem binds_step (t : SymbolTable) : t.Binds (step c layout s).1.statement ↔ t.Binds s := by
  unfold SymbolTable.Binds
  rw [Statement.shape_eq_of_unread_eq (unread_step c layout s)]

/-- A step stays in its pass. -/
@[simp] theorem pass_step : (step c layout s).2.pass = c.pass := by
  have hcheck : (checkDefinition c (s.parse c)).2.pass = c.pass := by
    rw [checkDefinition_snd]
  rcases step_cases c layout s with ⟨_, _, h⟩ | ⟨_, h⟩ | ⟨_, _, _, _, h⟩ | ⟨_, _, h⟩ <;> rw [h]
  · rfl
  · exact hcheck
  · exact hcheck
  · exact (Context.pass_move _ _).trans hcheck

/-- The label of a step is that of the text. -/
@[simp] theorem label_step :
    (step c layout s).1.statement.reading.label = s.shape.label := by
  rcases step_cases c layout s with ⟨_, _, h⟩ | ⟨_, h⟩ | ⟨_, _, _, _, h⟩ | ⟨_, _, h⟩ <;>
    rw [h] <;> exact s.label_parse c

@[simp] theorem equate_step :
    (step c layout s).1.statement.reading.equate = s.shape.operation.isEquate := by
  rcases step_cases c layout s with ⟨_, _, h⟩ | ⟨_, h⟩ | ⟨_, _, _, _, h⟩ | ⟨_, _, h⟩ <;>
    rw [h] <;> exact s.equate_parse c

/-- A step keeps what its statement turned out to be; an error gets the line. -/
theorem status_step :
    (step c layout s).1.statement.reading.status
      = ((s.parse c).reading.status.error?.map fun d => Status.failed (d.atLine s.line)).getD
          (s.parse c).reading.status := by
  rcases step_cases c layout s with
    ⟨d, hd, h⟩ | ⟨hfinish, h⟩ | ⟨hnone, _, _, _, h⟩ | ⟨hnone, _, h⟩ <;> rw [h]
  · rw [hd]
    rfl
  · rw [hfinish]
    exact hfinish
  · rw [hnone]
    rfl
  · rw [hnone]
    rfl

theorem status_step_eq_iff {status : Status} (hstatus : status.error? = none) :
    (step c layout s).1.statement.reading.status = status
      ↔ (s.parse c).reading.status = status := by
  rw [status_step]
  cases h : (s.parse c).reading.status with
  | failed d =>
    cases status with
    | failed _ => cases hstatus
    | _ => exact ⟨nofun, nofun⟩
  | _ => exact Iff.rfl

/-- A step ends the program exactly if its text does. -/
@[simp] theorem isEnd_step : (step c layout s).1.statement.isEnd = s.ends := by
  rw [Bool.eq_iff_iff, Statement.isEnd_iff, status_step_eq_iff c layout s rfl,
    s.status_parse_eq_finish_iff c]

variable {c s}

/-- **A step rewrites the symbol of an equate and no other.** -/
theorem symbols_step (hbinds : c.symbols.Binds s) :
    (step c layout s).2.symbols = c.symbols.rewrite (step c layout s).1.statement := by
  have hcheck := checkDefinition_eq (s := s.parse c) hbinds (s.label_parse c)
  rcases step_cases c layout s with ⟨d, _, h⟩ | ⟨_, h⟩ | ⟨_, _, _, _, h⟩ | ⟨_, _, h⟩ <;> rw [h]
  · -- a statement in error rewrites nothing, since it is no equate any more
    have hstatus : (failedStep c layout (s.parse c) d).1.statement.reading.status ≠ .equate := by
      show Status.failed _ ≠ _
      exact nofun
    rw [SymbolTable.rewrite_of_ne _ _ hstatus]
    rfl
  · unfold endStep
    rw [hcheck]
  · unfold resizedStep
    rw [hcheck]
    rfl
  · unfold emittedStep
    rw [hcheck]
    exact Context.symbols_move _ _

end Step

end Coding

/-! ### Whole passes -/

namespace Layout

/-- The context behind a statement that does not end the program. -/
def next (c : Context) (s : Statement) : Context := (c.bindLabel (s.parse c)).move (s.parse c)

@[simp] theorem pass_next (c : Context) (s : Statement) : (next c s).pass = c.pass := by
  unfold next Context.bindLabel
  rw [Context.pass_move]
  split <;> rfl

/-- The first pass stops at the end of the program. -/
theorem run_cons_of_ends (c : Context) {s : Statement} (rest : List Statement)
    (h : s.ends = true) :
    run c (s :: rest) = ([⟨c, s.parse c⟩], c.bindLabel (s.parse c)) := by
  rw [run]
  dsimp only
  rw [s.isEnd_parse c, h]
  rfl

theorem run_cons (c : Context) {s : Statement} (rest : List Statement) (h : s.ends = false) :
    run c (s :: rest) = (⟨c, s.parse c⟩ :: (run (next c s) rest).1, (run (next c s) rest).2) := by
  rw [run]
  dsimp only
  rw [s.isEnd_parse c, h]
  rfl

end Layout

namespace Coding

theorem run_cons_of_ends (c : Context) (layout : List Nat) {s : Statement}
    (rest : List Statement) (h : s.ends = true) :
    run c layout (s :: rest) = ([(step c layout.head? s).1], (step c layout.head? s).2) := by
  rw [run]
  dsimp only
  rw [isEnd_step, h]
  rfl

theorem run_cons (c : Context) (layout : List Nat) {s : Statement} (rest : List Statement)
    (h : s.ends = false) :
    run c layout (s :: rest)
      = ((step c layout.head? s).1 :: (run (step c layout.head? s).2 layout.tail rest).1,
          (run (step c layout.head? s).2 layout.tail rest).2) := by
  rw [run]
  dsimp only
  rw [isEnd_step, h]
  rfl

/-- **What every step keeps, a whole pass keeps.**  From an invariant `I` of the contexts and a fact
`Q` that is known of each step, `P` follows of each step. -/
theorem forall_run {I : Context → Prop} {P Q : Step → Prop}
    (hstep : ∀ c layout s, I c → Q (step c layout s).1 →
      P (step c layout s).1 ∧ I (step c layout s).2)
    {c : Context} {layout : List Nat} {ss : List Statement} (hc : I c)
    (hQ : ∀ st ∈ (run c layout ss).1, Q st) : ∀ st ∈ (run c layout ss).1, P st := by
  induction ss generalizing c layout with
  | nil => exact fun _ h => absurd h List.not_mem_nil
  | cons s rest ih =>
    intro st hst
    -- at the end of the program there is this one step, else the invariant is handed on
    cases hends : s.ends with
    | true =>
      rw [run_cons_of_ends c layout rest hends] at hQ hst
      obtain rfl := List.mem_singleton.mp hst
      exact (hstep c _ s hc (hQ _ hst)).1
    | false =>
      rw [run_cons c layout rest hends] at hQ hst
      have hhead := hstep c _ s hc (hQ _ (List.mem_cons_self ..))
      rcases List.mem_cons.mp hst with rfl | hst
      · exact hhead.1
      · exact ih hhead.2 (fun st hst => hQ st (List.mem_cons_of_mem _ hst)) st hst

/-- A pass reads its statements from their texts. -/
@[simp] theorem run_unread (c : Context) (layout : List Nat) (ss : List Statement) :
    run c layout (ss.map Statement.unread) = run c layout ss := by
  induction ss generalizing c layout with
  | nil => rfl
  | cons s rest ih =>
    -- `parse` drops the old reading
    have hstep : step c layout.head? s.unread = step c layout.head? s := rfl
    rw [List.map_cons]
    cases h : s.ends with
    | true =>
      rw [run_cons_of_ends c layout rest h, run_cons_of_ends c layout (s := s.unread) _ h, hstep]
    | false =>
      rw [run_cons c layout rest h, run_cons c layout (s := s.unread) _ h, hstep, ih]

/-- Statements with the same texts are coded in the same way. -/
theorem run_congr (c : Context) (layout : List Nat) {ss ss' : List Statement}
    (h : ss.map Statement.unread = ss'.map Statement.unread) :
    run c layout ss = run c layout ss' := by
  rw [← run_unread, h, run_unread]

end Coding

namespace Passes

/-- The steps of both passes at one statement. -/
abbrev Pair := Layout.Step × Coding.Step

/-- The steps at a statement, from a context of each pass. -/
def pair (c₁ c₂ : Context) (s : Statement) : Pair :=
  (⟨c₁, s.parse c₁⟩, (Coding.step c₂ (some (s.parse c₁).reading.size) s).1)

/-- The context of the coding pass behind a statement. -/
def next (c₁ c₂ : Context) (s : Statement) : Context :=
  (Coding.step c₂ (some (s.parse c₁).reading.size) s).2

/-- Both passes side by side, from a context of each. -/
def run (c₁ c₂ : Context) : List Statement → List Pair
  | [] => []
  | s :: rest =>
    pair c₁ c₂ s :: if s.ends then [] else run (Layout.next c₁ s) (next c₁ c₂ s) rest

theorem run_cons_of_ends (c₁ c₂ : Context) {s : Statement} (rest : List Statement)
    (h : s.ends = true) : run c₁ c₂ (s :: rest) = [pair c₁ c₂ s] := by
  rw [run, h]
  rfl

theorem run_cons (c₁ c₂ : Context) {s : Statement} (rest : List Statement) (h : s.ends = false) :
    run c₁ c₂ (s :: rest)
      = pair c₁ c₂ s :: run (Layout.next c₁ s) (next c₁ c₂ s) rest := by
  rw [run, h]
  rfl

/-- Every pair comes from a context of each pass. -/
theorem exists_of_mem_run {c₁ c₂ : Context} {ss : List Statement} {p : Pair}
    (hp : p ∈ run c₁ c₂ ss) : ∃ c₁' c₂' s, p = pair c₁' c₂' s ∧ c₁'.pass = c₁.pass := by
  induction ss generalizing c₁ c₂ with
  | nil => exact absurd hp List.not_mem_nil
  | cons s rest ih =>
    cases hends : s.ends with
    | true =>
      rw [run_cons_of_ends c₁ c₂ rest hends] at hp
      exact ⟨c₁, c₂, s, List.mem_singleton.mp hp, rfl⟩
    | false =>
      rw [run_cons c₁ c₂ rest hends] at hp
      rcases List.mem_cons.mp hp with rfl | hp
      · exact ⟨c₁, c₂, s, rfl, rfl⟩
      · obtain ⟨c₁', c₂', s', hpair, hpass⟩ := ih hp
        exact ⟨c₁', c₂', s', hpair, hpass.trans (Layout.pass_next c₁ s)⟩

/-- The first of each pair is the trace of the first pass. -/
@[simp] theorem map_fst_run (c₁ c₂ : Context) (ss : List Statement) :
    (run c₁ c₂ ss).map Prod.fst = (Layout.run c₁ ss).1 := by
  induction ss generalizing c₁ c₂ with
  | nil => rfl
  | cons s rest ih =>
    cases h : s.ends with
    | true =>
      rw [run_cons_of_ends c₁ c₂ rest h, Layout.run_cons_of_ends c₁ rest h]
      rfl
    | false =>
      rw [run_cons c₁ c₂ rest h, Layout.run_cons c₁ rest h]
      exact congrArg _ (ih _ _)

/-- The second of each pair is the trace of the final pass, with the room of the first. -/
@[simp] theorem map_snd_run (c₁ c₂ : Context) (ss : List Statement) :
    (run c₁ c₂ ss).map Prod.snd
      = (Coding.run c₂ ((Layout.run c₁ ss).1.map (·.statement.reading.size)) ss).1 := by
  induction ss generalizing c₁ c₂ with
  | nil => rfl
  | cons s rest ih =>
    cases h : s.ends with
    | true =>
      rw [run_cons_of_ends c₁ c₂ rest h, Layout.run_cons_of_ends c₁ rest h,
        Coding.run_cons_of_ends c₂ _ rest h]
      rfl
    | false =>
      rw [run_cons c₁ c₂ rest h, Layout.run_cons c₁ rest h, Coding.run_cons c₂ _ rest h]
      exact congrArg _ (ih _ _)

end Passes

/-! ### Statements that a pass reaches -/

namespace Statement

/-- The statements up to the end of the program. -/
def reach : List Statement → List Statement
  | [] => []
  | s :: rest => s :: if s.ends then [] else reach rest

theorem prefix_reach (ss : List Statement) : reach ss <+: ss := by
  induction ss with
  | nil => exact List.prefix_rfl
  | cons s rest ih =>
    rw [reach]
    split
    · exact (List.prefix_cons_inj s).mpr List.nil_prefix
    · exact (List.prefix_cons_inj s).mpr ih

end Statement

/-- **A layout reaches the statements up to the end.** -/
theorem Layout.unread_run (c : Context) (ss : List Statement) :
    (run c ss).1.map (·.statement.unread) = (Statement.reach ss).map Statement.unread := by
  induction ss generalizing c with
  | nil => rfl
  | cons s rest ih =>
    rw [Statement.reach]
    cases h : s.ends with
    | true =>
      rw [run_cons_of_ends c rest h]
      rfl
    | false =>
      rw [run_cons c rest h]
      exact congrArg _ (ih _)

/-- **The coding pass reaches the statements up to the end**, from any context. -/
theorem Coding.unread_run (c : Context) (layout : List Nat) (ss : List Statement) :
    (run c layout ss).1.map (·.statement.unread) = (Statement.reach ss).map Statement.unread := by
  induction ss generalizing c layout with
  | nil => rfl
  | cons s rest ih =>
    rw [Statement.reach]
    cases h : s.ends with
    | true =>
      rw [run_cons_of_ends c layout rest h, List.map_cons, unread_step]
      rfl
    | false =>
      rw [run_cons c layout rest h, List.map_cons, unread_step]
      exact congrArg _ (ih _ _)

namespace Assembly

theorem unread_replaceReached (a : Assembly) (reached : List Statement)
    (h : reached.map Statement.unread = (Statement.reach a.statements).map Statement.unread) :
    (a.replaceReached reached).map Statement.unread = a.statements.map Statement.unread := by
  have hlength : reached.length = (Statement.reach a.statements).length := by
    simpa using congrArg List.length h
  unfold replaceReached
  rw [List.map_append, h, hlength, ← List.map_append,
    List.prefix_iff_eq_append.mp (Statement.prefix_reach _)]

/-- The room that the first pass gave to each statement. -/
theorem sizes_layout (a : Assembly) :
    a.layout.sizes = a.layoutRun.1.map (·.statement.reading.size) := by
  show List.map _ (List.map _ _) = _
  rw [List.map_map]
  rfl

/-- The first pass keeps the texts. -/
@[simp] theorem unread_layout (a : Assembly) :
    a.layout.statements.map Statement.unread = a.statements.map Statement.unread := by
  refine a.unread_replaceReached _ ?_
  rw [List.map_map]
  exact Layout.unread_run _ a.statements

/-- The final pass keeps the texts. -/
@[simp] theorem unread_code (a : Assembly) :
    a.code.statements.map Statement.unread = a.statements.map Statement.unread := by
  refine a.unread_replaceReached _ ?_
  rw [List.map_map]
  exact Coding.unread_run _ _ a.statements

/-- The code of a layout is generated for the statements that were laid out. -/
theorem codeRun_layout (a : Assembly) :
    a.layout.codeRun = Coding.run (a.layoutRun.2.reset .final) a.layout.sizes a.statements :=
  Coding.run_congr _ _ a.unread_layout

/-- Code that is generated again is generated for the same statements, from the table that the
pass before has left. -/
theorem codeRun_code_layout (a : Assembly) :
    a.layout.code.codeRun
      = Coding.run ⟨a.layout.code.context.symbols, 0, .final⟩ a.layout.sizes a.statements :=
  Coding.run_congr _ _ (a.layout.unread_code.trans a.unread_layout)

/-- The passes of an assembly side by side. -/
def passes (a : Assembly) : List Passes.Pair :=
  a.layoutRun.1.zip a.layout.codeRun.1

/-- **The two passes, one after the other, are the passes side by side.** -/
theorem passes_eq (a : Assembly) :
    a.passes = Passes.run (a.context.reset .first) (a.layoutRun.2.reset .final) a.statements := by
  unfold passes
  rw [codeRun_layout, sizes_layout]
  exact (List.zip_of_prod (Passes.map_fst_run _ _ _) (Passes.map_snd_run _ _ _)).symm

@[simp] theorem map_fst_passes (a : Assembly) : a.passes.map Prod.fst = a.layoutRun.1 := by
  rw [passes_eq]
  exact Passes.map_fst_run _ _ _

@[simp] theorem map_snd_passes (a : Assembly) : a.passes.map Prod.snd = a.layout.codeRun.1 := by
  rw [passes_eq, codeRun_layout, sizes_layout]
  exact Passes.map_snd_run _ _ _

/-- The errors that are reported are those of the steps, in order. -/
theorem errors_passes (a : Assembly) :
    a.layout.code.report.errors = a.passes.flatMap (·.2.errors) := by
  show a.layout.codeRun.1.flatMap (·.errors) = _
  rw [← map_snd_passes, List.flatMap_map]

/-- **The passes reach the statements up to the end of the program.** -/
theorem map_unread_passes (a : Assembly) :
    a.passes.map (·.2.statement.unread) = (Statement.reach a.statements).map Statement.unread := by
  rw [← Coding.unread_run (a.layoutRun.2.reset .final) a.layout.sizes, ← codeRun_layout,
    ← map_snd_passes, List.map_map]
  rfl

theorem fst_mem_of_mem_passes {a : Assembly} {p : Passes.Pair} (hp : p ∈ a.passes) :
    p.1 ∈ a.layoutRun.1 := by
  rw [← map_fst_passes]
  exact List.mem_map_of_mem hp

theorem snd_mem_of_mem_passes {a : Assembly} {p : Passes.Pair} (hp : p ∈ a.passes) :
    p.2 ∈ a.layout.codeRun.1 := by
  rw [← map_snd_passes]
  exact List.mem_map_of_mem hp

theorem exists_of_mem_passes {a : Assembly} {p : Passes.Pair} (hp : p ∈ a.passes) :
    ∃ c₁ c₂ s, p = Passes.pair c₁ c₂ s ∧ c₁.pass = .first := by
  rw [passes_eq] at hp
  exact Passes.exists_of_mem_run hp

end Assembly

end Cosmac
