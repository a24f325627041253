import Cosmac.Proofs.FinalTable
import Cosmac.Proofs.Labels
import Cosmac.Proofs.Repetition
import Cosmac.Proofs.Stability

/-!
# Clean programs are fixpoints

In general a second coding pass may differ from the first one, because it begins with the table at
the end.  `generate_fixpoint` says that a program without errors is safe from this if its names and
origins are as in `Cosmac.Proofs.Stability`.

The table at a statement differs from the table at the end only in equates that are still to come.
If the layout knew the value of such an equate, it stays as it is; if not, the symbol has no value
yet, and a statement that needs it is in error.  So the table at a statement is below the table at
the end (`le_contextAt`), and a statement without errors is read in the same way with both.
-/

namespace Cosmac

namespace SymbolTable

/-- Behind some of several definitions a name has its old value, or the value behind them all. -/
theorem lookup_rewriteAll_of_sublist {t : SymbolTable} {front ss : List Statement}
    (hnodup : (ss.map (·.index)).Nodup) (hfront : front.Sublist ss) (m : Text) :
    (t.rewriteAll front).lookup m = t.lookup m ∨
      (t.rewriteAll front).lookup m = (t.rewriteAll ss).lookup m := by
  rcases lookup_rewriteAll (t := t) ((hfront.map _).nodup hnodup) m with h | ⟨s, hs, _, h⟩
  · exact Or.inl h
  · rw [h]
    exact lookup_rewrite_of_mem hnodup (hfront.subset hs) m

end SymbolTable

/-- **A statement that is read in the same way makes the same step**, if the tables differ in values
alone. -/
theorem Coding.step_of_parse {c : Context} {t' : SymbolTable} {s : Statement}
    (hpass : c.pass = .final)
    (hblank : t'.symbols.map Symbol.blank = c.symbols.symbols.map Symbol.blank)
    (hbinds : c.symbols.Binds s) (hparse : s.parse ⟨t', c.pc, .final⟩ = s.parse c)
    (layout : Option Nat) :
    (step ⟨t', c.pc, .final⟩ layout s).1 = (step c layout s).1 := by
  obtain ⟨t, pc, pass⟩ := c
  obtain rfl : pass = .final := hpass
  have hlabel := s.label_parse ⟨t, pc, .final⟩
  have hbinds' : t'.Binds s := SymbolTable.binds_of_map_blank hblank hbinds
  unfold step
  rw [hparse]
  generalize hread : s.parse ⟨t, pc, .final⟩ = read at hlabel
  have hshape : read.shape = s.shape := by
    rw [← hread]
    rfl
  rw [← hshape] at hlabel
  have hcheck := checkDefinition_eq (c := ⟨t, pc, .final⟩) (s := read)
    (by unfold SymbolTable.Binds; rw [hshape]; exact hbinds) hlabel
  have hcheck' := checkDefinition_eq (c := ⟨t', pc, .final⟩) (s := read)
    (by unfold SymbolTable.Binds; rw [hshape]; exact hbinds') hlabel
  rw [SymbolTable.duplicates_of_map_blank hblank] at hcheck'
  have hcoded : (codedStep ⟨t', pc, .final⟩ layout read).1
      = (codedStep ⟨t, pc, .final⟩ layout read).1 := by
    unfold codedStep
    rw [hcheck, hcheck']
    dsimp only
    split_ifs
    · rfl
    · -- where the statement moves the counter to depends on the counter and the reading
      unfold Context.move
      split <;> rfl
  cases hstatus : read.reading.status with
  | failed d => simp only [hstatus]; rfl
  | finish =>
    simp only [hstatus]
    unfold endStep
    rw [hcheck, hcheck']
  | _ =>
    simp only [hstatus]
    exact hcoded

namespace Assembly

variable {s : Assembler} {lines : List Text} {k : Nat} {st : Coding.Step}

section Agreeing

variable (hplain : (s.seed.load lines).layout.context.symbols.Plain)
  (horigins : (s.seed.load lines).OriginsKnown)
  (hst : (s.seed.load lines).layout.codeRun.1[k]? = some st)

include hplain horigins hst

/-- **No value that a statement finds is another one at the end.** -/
theorem le_contextAt :
    ((s.seed.load lines).layout.contextAt k).symbols.Le
      (s.seed.load lines).layout.code.context.symbols := by
  have hagrees := agrees_passes hplain horigins
  rw [symbols_contextAt hst, symbols_code]
  refine ⟨fun n v hv => ?_, fun n hn => ?_⟩
  · obtain ⟨symbol, hsymbol, hvalue⟩ := SymbolTable.valueOf_eq_some_iff.mp hv
    have hsublist := (List.take_sublist k (s.seed.load lines).layout.codeRun.1).map
      Coding.Step.statement
    rcases SymbolTable.lookup_rewriteAll_of_sublist (nodup_index_codeRun s.seed lines) hsublist n
      with hold | hnew
    · -- the value is from the layout, and so it stays
      have hlayout : (s.seed.load lines).layout.context.symbols.valueOf n = some v :=
        SymbolTable.valueOf_eq_some_iff.mpr ⟨symbol, hold.symm.trans hsymbol, hvalue⟩
      exact valueOf_rewriteAll_of_agrees hagrees (fun st hst => hst) hlayout
    · exact SymbolTable.valueOf_eq_some_iff.mpr ⟨symbol, hnew.symm.trans hsymbol, hvalue⟩
  · rw [SymbolTable.isSome_lookup_rewriteAll] at hn ⊢
    exact hn

theorem grows_contextAt :
    ((s.seed.load lines).layout.contextAt k).Grows
      ⟨(s.seed.load lines).layout.code.context.symbols,
        ((s.seed.load lines).layout.contextAt k).pc, .final⟩ := by
  have hplain' : (s.seed.load lines).layout.code.context.symbols.Plain := by
    rw [symbols_code]
    exact SymbolTable.plain_of_map_blank (SymbolTable.map_blank_rewriteAll _ _) hplain
  exact ⟨rfl, le_contextAt hplain horigins hst,
    fun n hname hnumeral _ => SymbolTable.lookup_of_plain hplain' hname hnumeral⟩

/-- **A statement without errors is read in the same way with the table at the end.** -/
theorem parse_contextAt (herrors : st.errors = []) :
    ∃ own : Statement,
      st = (Coding.step ((s.seed.load lines).layout.contextAt k)
        (s.seed.load lines).layout.sizes[k]? own).1 ∧
      own.parse ⟨(s.seed.load lines).layout.code.context.symbols,
          ((s.seed.load lines).layout.contextAt k).pc, .final⟩
        = own.parse ((s.seed.load lines).layout.contextAt k) := by
  obtain ⟨own, hown⟩ := (Coding.run_take hst).1
  have hown : st = (Coding.step ((s.seed.load lines).layout.contextAt k)
      (s.seed.load lines).layout.sizes[k]? own).1 := hown
  refine ⟨own, hown, ?_⟩
  have hpass : ((s.seed.load lines).layout.contextAt k).pass = .final := Coding.pass_run ..
  rw [hown] at herrors
  have hresolve := Shape.resolve_of_grows (grows_contextAt hplain horigins hst)
    (by rw [hpass]; rfl) hpass.symm (Shape.tidy_read own.text)
    (Coding.error_parse_of_errors_nil herrors)
  show { own with reading := (Shape.read own.text).resolve _ } = _
  rw [hresolve]
  rfl

end Agreeing

/-- **Without errors every statement is steady.** -/
theorem steady_codeRun (hplain : (s.seed.load lines).layout.context.symbols.Plain)
    (horigins : (s.seed.load lines).OriginsKnown)
    (hclean : (s.seed.generate lines).report.errorCount = 0) :
    Coding.Steady (s.seed.load lines).layout.code.context.symbols
      (s.seed.load lines).layout.sizes (s.seed.load lines).layout.codeRun.1 := by
  intro k st hst
  have hmem := List.mem_of_getElem? hst
  obtain ⟨own, hown, hparse⟩ := parse_contextAt hplain horigins hst (errors_codeRun hclean st hmem)
  have hunread : st.statement.unread = own.unread := by rw [hown, Coding.unread_step]
  have hstart : st.start = ((s.seed.load lines).layout.contextAt k).pc := by
    rw [hown, Coding.start_step]
  -- the tables at the statement and at the end come from that of the layout
  have hblank : (s.seed.load lines).layout.code.context.symbols.symbols.map Symbol.blank
      = ((s.seed.load lines).layout.contextAt k).symbols.symbols.map Symbol.blank := by
    rw [symbols_code_contextAt hst, SymbolTable.map_blank_rewriteAll]
  have hbinds : ((s.seed.load lines).layout.contextAt k).symbols.Binds own := by
    rw [← Coding.binds_step _ (s.seed.load lines).layout.sizes[k]? own, ← hown,
      symbols_contextAt hst]
    exact SymbolTable.binds_of_map_blank (SymbolTable.map_blank_rewriteAll _ _)
      (binds_codeRun _ st hmem)
  have hstep := Coding.step_of_parse (Coding.pass_run ..) hblank hbinds hparse
    (s.seed.load lines).layout.sizes[k]?
  rw [hstart, Coding.step_congr _ _ hunread]
  refine ⟨congrArg _ (hstep.trans hown.symm), ?_⟩
  have hbinds' : (s.seed.load lines).layout.code.context.symbols.Binds own :=
    SymbolTable.binds_of_map_blank hblank hbinds
  have hsymbols := Coding.symbols_step
    (c := ⟨_, ((s.seed.load lines).layout.contextAt k).pc, .final⟩)
    (s.seed.load lines).layout.sizes[k]? hbinds'
  refine hsymbols.trans ?_
  rw [hstep, ← hown, symbols_code]
  exact SymbolTable.rewrite_rewriteAll (nodup_index_codeRun s.seed lines) _
    (List.mem_map_of_mem hmem)

/-- **The code of a program without errors is what the table at the end gives.** -/
theorem codeAgrees_of_clean (hplain : (s.seed.load lines).layout.context.symbols.Plain)
    (horigins : (s.seed.load lines).OriginsKnown)
    (hclean : (s.seed.generate lines).report.errorCount = 0) :
    (s.seed.load lines).CodeAgrees := by
  intro st hmem hne
  obtain ⟨k, hst⟩ := List.mem_iff_getElem?.mp hmem
  obtain ⟨own, hown, hparse⟩ := parse_contextAt hplain horigins hst (errors_codeRun hclean st hmem)
  have htext : st.statement.unread.text = own.unread.text := by rw [hown, Coding.unread_step]
  have htext : st.statement.text = own.text := htext
  have hcode := congrArg (fun read : Statement => read.reading.code) hparse
  rw [hown] at hne
  rw [htext, hown, Coding.start_step]
  exact hcode.trans (Coding.code_step hne).symm

/-- **A program without errors is a fixpoint**, if no name looks like a number or a register and no
origin refers to a name that is unknown so far: another coding pass gives the same results by
the same steps, and the code of each statement is the one that the table at the end gives. -/
theorem generate_fixpoint (s : Assembler) (lines : List Text)
    (hplain : (s.seed.load lines).layout.context.symbols.Plain)
    (horigins : (s.seed.load lines).OriginsKnown)
    (hclean : (s.seed.generate lines).report.errorCount = 0) :
    (s.seed.load lines).layout.Repeats ∧ (s.seed.load lines).layout.RepeatsSteps ∧
      (s.seed.load lines).CodeAgrees := by
  obtain ⟨hrepeats, hsteps⟩ := repeats_of_steady (steady_codeRun hplain horigins hclean)
  exact ⟨hrepeats, hsteps, codeAgrees_of_clean hplain horigins hclean⟩

/-- An equate that refers further down, used behind it, beside others used before and behind. -/
theorem generate_fixpoint_forward :
    let s : Assembler := { defines := [("BASE".toList, 0x0100)] }
    let lines := ["ORG BASE", "LDI LOW", "LOW = 7", "K = LATER+1", "SEX LOW", "LBR K",
      "DC K, LOW, #41", "LATER: BR LATER", "END"].map String.toList
    ((s.seed.load lines).layout.context.symbols.Plain ∧ (s.seed.load lines).OriginsKnown ∧
        (s.seed.generate lines).report.errorCount = 0) ∧
      (s.seed.load lines).layout.Repeats ∧ (s.seed.load lines).layout.RepeatsSteps ∧
      (s.seed.load lines).CodeAgrees := by
  intro s lines
  have hsettled : (s.seed.load lines).layout.context.symbols.Plain ∧
      (s.seed.load lines).OriginsKnown ∧ (s.seed.generate lines).report.errorCount = 0 := by
    decide +kernel
  exact ⟨hsettled, generate_fixpoint s lines hsettled.1 hsettled.2.1 hsettled.2.2⟩

end Assembly

end Cosmac
