import Cosmac.Proofs.Definitions

/-!
# Generating code once more

The coding pass begins with the table of the layout and ends with another one, in which every
equate has its last value.  Run again, it begins with that table, so a statement that refers to an
equate further down may now find another value, or find one at all.

`repeats_iff_steady` says exactly when the second run gives what the first one did, in its results
and in its steps: if and only if every statement, from the table at the end and at its own address,
makes the same step again and leaves the table as it is.  One direction needs that a table which
comes out of the second run unchanged was never changed on the way, since no symbol is rewritten
twice.
-/

namespace Cosmac

namespace Coding

/-- A step as it is printed, without what was read. -/
def Step.shown (st : Step) : Step := { st with statement := st.statement.unread }

/-- A change of steps that leaves all that is printed of them. -/
structure Step.Keeps (f : Step → Step) : Prop where
  start : ∀ st, (f st).start = st.start
  errors : ∀ st, (f st).errors = st.errors
  code : ∀ st, (f st).code = st.code
  stop : ∀ st, (f st).stop = st.stop
  line : ∀ st, (f st).statement.line = st.statement.line

theorem Step.keeps_shown : Step.Keeps Step.shown :=
  ⟨fun _ => rfl, fun _ => rfl, fun _ => rfl, fun _ => rfl, fun _ => rfl⟩

/-- From this table and at its own address, every statement makes its step again and leaves the
table as it is. -/
def Steady (t : SymbolTable) (layout : List Nat) (steps : List Step) : Prop :=
  ∀ (k : Nat) (st : Step), steps[k]? = some st →
    (step ⟨t, st.start, .final⟩ layout[k]? st.statement).1.shown = st.shown ∧
    (step ⟨t, st.start, .final⟩ layout[k]? st.statement).2.symbols = t

theorem steady_nil (t : SymbolTable) (layout : List Nat) : Steady t layout [] := by
  intro k st hst
  rw [List.getElem?_nil] at hst
  cases hst

theorem steady_cons {t : SymbolTable} {layout : List Nat} {st : Step} {steps : List Step} :
    Steady t layout (st :: steps) ↔
      ((step ⟨t, st.start, .final⟩ layout.head? st.statement).1.shown = st.shown ∧
        (step ⟨t, st.start, .final⟩ layout.head? st.statement).2.symbols = t) ∧
      Steady t layout.tail steps := by
  unfold Steady
  rw [List.head?_eq_getElem?]
  constructor
  · intro h
    refine ⟨h 0 st rfl, fun k st' hst' => ?_⟩
    rw [List.getElem?_tail]
    exact h (k + 1) st' hst'
  · rintro ⟨hhead, htail⟩ k st' hst'
    cases k with
    | zero =>
      obtain rfl := Option.some.inj hst'
      exact hhead
    | succ k =>
      have := htail k st' hst'
      rw [List.getElem?_tail] at this
      exact this

theorem step_congr (c : Context) (layout : Option Nat) {s s' : Statement}
    (h : s.unread = s'.unread) : step c layout s = step c layout s' := by
  show step c layout s.unread = step c layout s'.unread
  rw [h]

/-- The context behind a step that is printed like another and leaves the table alone. -/
theorem step_snd_of_shown {t : SymbolTable} {c : Context} {layout : Option Nat} {s : Statement}
    (hshown : (step ⟨t, c.pc, .final⟩ layout s).1.shown = (step c layout s).1.shown)
    (hsymbols : (step ⟨t, c.pc, .final⟩ layout s).2.symbols = t) :
    (step ⟨t, c.pc, .final⟩ layout s).2 = ⟨t, (step c layout s).2.pc, .final⟩ := by
  -- the location counter behind a step is printed with it
  have hpc : (step ⟨t, c.pc, .final⟩ layout s).2.pc = (step c layout s).2.pc := by
    rw [← stop_step, ← stop_step]
    show (Step.shown _).stop = (Step.shown _).stop
    rw [hshown]
  have hpass : (step ⟨t, c.pc, .final⟩ layout s).2.pass = .final := pass_step ..
  generalize (step ⟨t, c.pc, .final⟩ layout s).2 = after at hsymbols hpc hpass ⊢
  obtain ⟨_, _, _⟩ := after
  exact congr (congr (congrArg Context.mk hsymbols) hpc) hpass

variable {t : SymbolTable} {c : Context} {layout : List Nat} {ss : List Statement}

/-- **Steady statements make the same pass again**, and the table stays as it is. -/
theorem run_of_steady (h : Steady t layout (run c layout ss).1) :
    (run ⟨t, c.pc, .final⟩ layout ss).1.map Step.shown = (run c layout ss).1.map Step.shown ∧
      (run ⟨t, c.pc, .final⟩ layout ss).2.symbols = t := by
  induction ss generalizing c layout with
  | nil => exact ⟨rfl, rfl⟩
  | cons s rest ih =>
    have hcongr := step_congr ⟨t, c.pc, .final⟩ layout.head? (unread_step c layout.head? s)
    cases hends : s.ends with
    | true =>
      rw [run_cons_of_ends c layout rest hends, steady_cons, start_step, hcongr] at h
      rw [run_cons_of_ends c layout rest hends, run_cons_of_ends _ layout rest hends]
      exact ⟨congrArg (fun st => [st]) h.1.1, h.1.2⟩
    | false =>
      rw [run_cons c layout rest hends, steady_cons, start_step, hcongr] at h
      rw [run_cons c layout rest hends, run_cons _ layout rest hends,
        step_snd_of_shown h.1.1 h.1.2, List.map_cons, List.map_cons, h.1.1]
      obtain ⟨hshown, hsymbols⟩ := ih h.2
      exact ⟨congrArg _ hshown, hsymbols⟩

/-- **A pass that is the same again has steady statements**, if none of them changes the table. -/
theorem steady_of_run
    (hshown : (run ⟨t, c.pc, .final⟩ layout ss).1.map Step.shown
      = (run c layout ss).1.map Step.shown)
    (hbinds : ∀ st ∈ (run ⟨t, c.pc, .final⟩ layout ss).1, t.Binds st.statement)
    (hkeep : ∀ st ∈ (run ⟨t, c.pc, .final⟩ layout ss).1, t.rewrite st.statement = t) :
    Steady t layout (run c layout ss).1 := by
  induction ss generalizing c layout with
  | nil => exact steady_nil t layout
  | cons s rest ih =>
    have hcongr := step_congr ⟨t, c.pc, .final⟩ layout.head? (unread_step c layout.head? s)
    -- the first step of the new pass leaves the table alone
    have hsymbols (hmem : (step ⟨t, c.pc, .final⟩ layout.head? s).1
        ∈ (run ⟨t, c.pc, .final⟩ layout (s :: rest)).1) :
        (step ⟨t, c.pc, .final⟩ layout.head? s).2.symbols = t := by
      rw [symbols_step _ ((binds_step ..).mp (hbinds _ hmem))]
      exact hkeep _ hmem
    cases hends : s.ends with
    | true =>
      rw [run_cons_of_ends _ layout rest hends] at hshown hsymbols
      rw [run_cons_of_ends c layout rest hends] at hshown ⊢
      rw [steady_cons, start_step, hcongr]
      exact ⟨⟨(List.cons.inj hshown).1, hsymbols (List.mem_cons_self ..)⟩, steady_nil t _⟩
    | false =>
      rw [run_cons _ layout rest hends] at hshown hbinds hkeep hsymbols
      rw [run_cons c layout rest hends] at hshown ⊢
      obtain ⟨hhead, htail⟩ := List.cons.inj hshown
      have hsymbols := hsymbols (List.mem_cons_self ..)
      rw [step_snd_of_shown hhead hsymbols] at htail hbinds hkeep
      rw [steady_cons, start_step, hcongr]
      exact ⟨⟨hhead, hsymbols⟩, ih htail (fun st hst => hbinds st (List.mem_cons_of_mem _ hst))
        fun st hst => hkeep st (List.mem_cons_of_mem _ hst)⟩

end Coding

/-! ### What is printed -/

namespace Coding

/-- Whether a step ends the program can be told from its text. -/
theorem isEnd_run (c : Context) (layout : List Nat) (ss : List Statement) :
    ∀ st ∈ (run c layout ss).1, st.statement.isEnd = st.statement.ends := by
  refine forall_run (I := fun _ => True) (Q := fun _ => True) (fun c layout s _ _ => ⟨?_, trivial⟩)
    trivial fun _ _ => trivial
  unfold Statement.ends
  rw [isEnd_step, Statement.shape_eq_of_unread_eq (unread_step c layout s)]
  rfl

end Coding

namespace Assembly

open Coding (Step)

section Printed

variable {f : Step → Step} (hf : Step.Keeps f)
include hf

theorem imageOf_map (steps : List Step) : imageOf (steps.map f) = imageOf steps := by
  unfold imageOf
  rw [List.foldl_map]
  simp only [hf.start, hf.code]

theorem errors_map (steps : List Step) :
    (steps.map f).flatMap (·.errors) = steps.flatMap (·.errors) := by
  rw [List.flatMap_map]
  simp only [hf.errors]

theorem listingLine_map (number : Int) (source : Text) (steps : List Step) (address : Int) :
    listingLine number source (steps.map f) address
      = listingLine number source steps address := by
  unfold listingLine
  rw [List.head?_map, Option.map_map, List.flatMap_map, List.flatMap_map]
  simp only [Function.comp_def, hf.start, hf.code, hf.errors]

theorem listingFrom_map (number : Int) (lines : List Text) (steps : List Step) (address : Int) :
    listingFrom number lines (steps.map f) address
      = listingFrom number lines steps address := by
  induction lines generalizing number steps address with
  | nil => rfl
  | cons source rest ih =>
    rw [listingFrom, listingFrom, List.takeWhile_map, List.dropWhile_map, listingLine_map hf,
      List.getLast?_map, Option.map_map, ih]
    simp only [Function.comp_def, hf.line, hf.stop]

end Printed

theorem listedLines_congr (n : Nat) {steps steps' : List Step}
    (hends : ∀ st ∈ steps, st.statement.isEnd = st.statement.ends)
    (hends' : ∀ st ∈ steps', st.statement.isEnd = st.statement.ends)
    (h : steps.map Step.shown = steps'.map Step.shown) :
    listedLines n steps = listedLines n steps' := by
  have hlast := congrArg List.getLast? h
  rw [List.getLast?_map, List.getLast?_map] at hlast
  unfold listedLines
  cases hst : steps.getLast? with
  | none =>
    rw [hst] at hlast
    rw [Option.map_eq_none_iff.mp hlast.symm]
  | some st =>
    rw [hst] at hlast
    obtain ⟨st', hst', hshown⟩ := Option.map_eq_some_iff.mp hlast.symm
    rw [hst']
    show (if st.statement.isEnd then st.shown.statement.line.toNat else n)
      = if st'.statement.isEnd then st'.shown.statement.line.toNat else n
    rw [hends st (List.mem_of_getLast? hst), hends' st' (List.mem_of_getLast? hst'), hshown]
    show (if st.shown.statement.ends then _ else _) = if st'.shown.statement.ends then _ else _
    rw [hshown]

/-- Generating code once more gives the same results: image, listing, report and symbols are as
they were. -/
structure Repeats (a : Assembly) : Prop where
  /-- The image is the same. -/
  image : a.code.code.image = a.code.image
  /-- The listing is the same. -/
  listing : a.code.code.listing = a.code.listing
  /-- The errors and warnings are the same. -/
  report : a.code.code.report = a.code.report
  /-- The symbol table is the same. -/
  symbols : a.code.code.context.symbols = a.code.context.symbols

/-- Generating code once more goes through the same steps: every statement has the address, code and
errors that it had. -/
def RepeatsSteps (a : Assembly) : Prop :=
  a.code.codeRun.1.map Step.shown = a.codeRun.1.map Step.shown

/-- What is printed follows from the steps. -/
theorem repeats_of_shown {a : Assembly} (hsteps : a.RepeatsSteps)
    (hsymbols : a.code.codeRun.2.symbols = a.codeRun.2.symbols) : a.Repeats where
  image := by
    show imageOf a.code.codeRun.1 = imageOf a.codeRun.1
    rw [← imageOf_map Step.keeps_shown, hsteps, imageOf_map Step.keeps_shown]
  listing := by
    have hlisted : listedLines a.source.length a.code.codeRun.1
        = listedLines a.source.length a.codeRun.1 :=
      listedLines_congr _ (Coding.isEnd_run _ _ _) (Coding.isEnd_run _ _ _) hsteps
    show listingFrom 1 (a.source.take (listedLines a.source.length a.code.codeRun.1))
        a.code.codeRun.1 0
      = listingFrom 1 (a.source.take (listedLines a.source.length a.codeRun.1)) a.codeRun.1 0
    rw [← listingFrom_map Step.keeps_shown, hsteps, listingFrom_map Step.keeps_shown, hlisted]
  report := by
    have herrors : a.code.codeRun.1.flatMap (·.errors) = a.codeRun.1.flatMap (·.errors) := by
      rw [← errors_map Step.keeps_shown, hsteps, errors_map Step.keeps_shown]
    show Report.mk (a.code.codeRun.1.flatMap (·.errors)) _ = Report.mk _ _
    rw [herrors]
    rfl
  symbols := hsymbols

/-- **Steady statements give the same results by the same steps.** -/
theorem repeats_of_steady {a : Assembly}
    (h : Coding.Steady a.layout.code.context.symbols a.layout.sizes a.layout.codeRun.1) :
    a.layout.Repeats ∧ a.layout.RepeatsSteps := by
  rw [codeRun_layout] at h
  obtain ⟨hshown, hsymbols⟩ := Coding.run_of_steady h
  have hsteps : a.layout.RepeatsSteps := by
    unfold RepeatsSteps
    rw [codeRun_code_layout, codeRun_layout]
    exact hshown
  refine ⟨repeats_of_shown hsteps ?_, hsteps⟩
  rw [codeRun_code_layout]
  exact hsymbols

/-- **A second coding pass gives the same results by the same steps exactly if all statements are
steady**: from the table that the first pass left, and at its own address, every statement has the
same code and the same errors, moves the location counter to the same place and leaves the table as
it is. -/
theorem repeats_iff_steady (s : Assembler) (lines : List Text) :
    (s.seed.load lines).layout.Repeats ∧ (s.seed.load lines).layout.RepeatsSteps ↔
      Coding.Steady (s.seed.generate lines).context.symbols (s.seed.load lines).layout.sizes
        (s.seed.load lines).layout.codeRun.1 := by
  constructor
  · rintro ⟨h, hsteps⟩
    unfold RepeatsSteps at hsteps
    have hagain := codeRun_code_layout (s.seed.load lines)
    have hfirst := codeRun_layout (s.seed.load lines)
    -- the second run ends with the table it began with, so no step of it changes that
    have hsymbols : (s.seed.generate lines).context.symbols
        = (s.seed.generate lines).context.symbols.rewriteAll
            ((s.seed.load lines).layout.code.codeRun.1.map (·.statement)) :=
      h.symbols.symm.trans (symbols_code_code _)
    rw [hagain] at hsteps hsymbols
    rw [hfirst] at hsteps ⊢
    refine Coding.steady_of_run hsteps (binds_code _ _ _) fun st hst => ?_
    rw [hsymbols]
    exact SymbolTable.rewrite_rewriteAll (Coding.nodup_index_run ..) _ (List.mem_map_of_mem hst)
  · exact repeats_of_steady

/-- `K` has no value until its equate has been read in the coding pass, so the first run finds an
error where the second run finds none: the results are not the same. -/
theorem not_repeats_forward_equate :
    let lines := ["LDI K", "K = LATER", "LATER: NOP", "END"].map String.toList
    ¬ (({} : Assembler).seed.load lines).layout.Repeats :=
  fun h => absurd h.report (by decide +kernel)

end Assembly

end Cosmac
