import Cosmac.Proofs.Listing
import Cosmac.Proofs.Repetition

/-!
# Text behind the end of the program

The statement that ends a program is told by its text (`Statement.ends`), so both passes stop at the
same place, whatever the symbols are.  What stands behind that place is carried along and never
looked at:

* `Layout.run_reach`, `Coding.run_reach`: a pass sees the statements up to the end and no others;
* `Assembly.layout_extend`, `Assembly.code_extend`: an assembly with more source behind the end runs
  through both passes like the one without, and still has the additional source afterwards;
* `Assembly.generate_append`: this is what happens to a program that is continued behind its end.

The listing is the one result that asks for the length of the source.  It goes up to the line of the
end, which is a line of the program itself.
-/

namespace Cosmac

/-! ### Statements up to the end -/

namespace Statement

/-- One of the statements ends the program. -/
def SomeEnds (ss : List Statement) : Prop := ∃ s ∈ ss, s.ends = true

theorem SomeEnds.tail {s : Statement} {rest : List Statement} (h : SomeEnds (s :: rest))
    (hends : s.ends = false) : SomeEnds rest := by
  obtain ⟨s', hs', hends'⟩ := h
  rcases List.mem_cons.mp hs' with rfl | hs'
  · simp [hends] at hends'
  · exact ⟨s', hs', hends'⟩

/-- **Behind the end nothing is reached.** -/
theorem reach_append {ss : List Statement} (h : SomeEnds ss) (rest : List Statement) :
    reach (ss ++ rest) = reach ss := by
  induction ss with
  | nil => simp [SomeEnds] at h
  | cons s front ih =>
    rw [List.cons_append, reach, reach]
    cases hends : s.ends with
    | true => rfl
    | false => simp [ih (h.tail hends)]

theorem someEnds_reach {ss : List Statement} (h : SomeEnds ss) : SomeEnds (reach ss) := by
  induction ss with
  | nil => exact h
  | cons s rest ih =>
    rw [reach]
    cases hends : s.ends with
    | true => exact ⟨s, by simp, hends⟩
    | false =>
      obtain ⟨s', hs', hends'⟩ := ih (h.tail hends)
      exact ⟨s', by simp [hs'], hends'⟩

/-- Whether a statement ends the program does not depend on an earlier reading. -/
theorem SomeEnds.of_unread {ss ss' : List Statement} (h : SomeEnds ss)
    (hunread : ss.map Statement.unread = ss'.map Statement.unread) : SomeEnds ss' := by
  obtain ⟨s, hs, hends⟩ := h
  have hmem : s.unread ∈ ss'.map Statement.unread := by
    rw [← hunread]
    exact List.mem_map_of_mem hs
  obtain ⟨s', hs', hsame⟩ := List.mem_map.mp hmem
  refine ⟨s', hs', ?_⟩
  rw [ends, shape_eq_of_unread_eq hsame]
  exact hends

/-- The statements of a longer source start with those of the shorter one. -/
theorem ofSource_append (lines more : List Text) :
    ∃ rest, ofSource (lines ++ more) = ofSource lines ++ rest := by
  unfold ofSource
  simp only [List.zipIdx_append, List.flatMap_append, List.map_append]
  exact ⟨_, rfl⟩

end Statement

/-! ### The passes -/

@[simp] theorem Layout.run_reach (c : Context) (ss : List Statement) :
    run c (Statement.reach ss) = run c ss := by
  induction ss generalizing c with
  | nil => rfl
  | cons s rest ih =>
    rw [Statement.reach]
    cases hends : s.ends with
    | true => rw [run_cons_of_ends c _ hends, run_cons_of_ends c _ hends]
    | false =>
      rw [run_cons c _ hends, run_cons c _ hends]
      simp [ih]

namespace Coding

@[simp] theorem run_reach (c : Context) (layout : List Nat) (ss : List Statement) :
    run c layout (Statement.reach ss) = run c layout ss := by
  induction ss generalizing c layout with
  | nil => rfl
  | cons s rest ih =>
    rw [Statement.reach]
    cases hends : s.ends with
    | true => rw [run_cons_of_ends c layout _ hends, run_cons_of_ends c layout _ hends]
    | false =>
      rw [run_cons c layout _ hends, run_cons c layout _ hends]
      simp [ih]

/-- **The last step is the end of the program**, if there is one, on the line of its statement. -/
theorem getLast_run (c : Context) (layout : List Nat) {ss : List Statement}
    (h : Statement.SomeEnds ss) :
    ∃ st, (run c layout ss).1.getLast? = some st ∧ st.statement.isEnd = true ∧
      ∃ s ∈ ss, st.statement.line = s.line := by
  obtain ⟨s, hs, hends⟩ := Statement.someEnds_reach h
  have hmem : s.unread ∈ (run c layout ss).1.map (·.statement.unread) := by
    rw [unread_run]
    exact List.mem_map_of_mem hs
  obtain ⟨st, hst, hunread⟩ := List.mem_map.mp hmem
  have hisEnd : st.statement.isEnd = true := by
    rw [isEnd_run c layout ss st hst, Statement.ends, Statement.shape_eq_of_unread_eq hunread]
    exact hends
  have hline : st.statement.unread.line = s.unread.line := by rw [hunread]
  exact ⟨st, getLast_of_isEnd c layout ss st hst hisEnd, hisEnd, s,
    (Statement.prefix_reach ss).subset hs, hline⟩

end Coding

/-! ### Assemblies -/

namespace Assembly

/-- The assembly with more source lines and statements behind those that it has. -/
def extend (a : Assembly) (source : List Text) (rest : List Statement) : Assembly :=
  { a with source := a.source ++ source, statements := a.statements ++ rest }

theorem load_append (a : Assembly) (lines more : List Text) :
    ∃ rest, a.load (lines ++ more) = (a.load lines).extend (more.map Text.dropTerminator) rest := by
  obtain ⟨rest, hrest⟩ := Statement.ofSource_append (lines.map Text.dropTerminator)
    (more.map Text.dropTerminator)
  refine ⟨rest, ?_⟩
  simp only [load, extend, List.map_append, hrest]

section Extend

variable {a : Assembly} (hend : Statement.SomeEnds a.statements) (source : List Text)
  (rest : List Statement)

theorem replaceReached_extend {reached : List Statement}
    (h : reached.map Statement.unread = (Statement.reach a.statements).map Statement.unread) :
    (a.extend source rest).replaceReached reached = a.replaceReached reached ++ rest := by
  have hlength : reached.length = (Statement.reach a.statements).length := by
    simpa using congrArg List.length h
  have hle := (Statement.prefix_reach a.statements).length_le
  unfold replaceReached extend
  simp [List.drop_append_of_le_length (hlength ▸ hle)]

include hend

theorem layoutRun_extend : (a.extend source rest).layoutRun = a.layoutRun := by
  show Layout.run _ (a.statements ++ rest) = Layout.run _ a.statements
  rw [← Layout.run_reach, Statement.reach_append hend, Layout.run_reach]
  rfl

theorem codeRun_extend : (a.extend source rest).codeRun = a.codeRun := by
  show Coding.run _ _ (a.statements ++ rest) = Coding.run _ _ a.statements
  rw [← Coding.run_reach, Statement.reach_append hend, Coding.run_reach]
  rfl

/-- **The layout passes by what stands behind the end.** -/
theorem layout_extend : (a.extend source rest).layout = a.layout.extend source rest := by
  have hreached : (a.layoutRun.1.map (·.statement)).map Statement.unread
      = (Statement.reach a.statements).map Statement.unread := by
    rw [List.map_map]
    exact Layout.unread_run _ a.statements
  unfold layout
  simp only [layoutRun_extend hend, replaceReached_extend source rest hreached]
  rfl

/-- The lines that are listed are lines of the program. -/
theorem take_listedLines (hlines : ∀ s ∈ a.statements, s.line ≤ a.source.length) :
    (a.source ++ source).take (listedLines (a.source ++ source).length a.codeRun.1)
      = a.source.take (listedLines a.source.length a.codeRun.1) := by
  obtain ⟨st, hlast, hisEnd, s, hs, hline⟩ :=
    Coding.getLast_run (a.context.reset .final) a.sizes hend
  have hlisted : ∀ n, listedLines n a.codeRun.1 = st.statement.line.toNat := by
    intro n
    unfold listedLines codeRun
    rw [hlast]
    exact if_pos hisEnd
  have hle := hlines s hs
  rw [hlisted, hlisted, List.take_append_of_le_length (by omega)]

/-- **Generating code passes by what stands behind the end.** -/
theorem code_extend (hlines : ∀ s ∈ a.statements, s.line ≤ a.source.length) :
    (a.extend source rest).code = a.code.extend source rest := by
  have hreached : (a.codeRun.1.map (·.statement)).map Statement.unread
      = (Statement.reach a.statements).map Statement.unread := by
    rw [List.map_map]
    exact Coding.unread_run _ _ a.statements
  have hlisted := take_listedLines hend source hlines
  unfold code
  simp only [codeRun_extend hend, replaceReached_extend source rest hreached]
  unfold extend
  dsimp only
  rw [hlisted]

end Extend

/-- **A program that is continued behind its end** gives what it gave before, with the continuation
behind its source and its statements. -/
theorem generate_append (a : Assembly) {lines : List Text}
    (hend : Statement.SomeEnds (a.load lines).statements) (more : List Text) :
    ∃ rest, a.generate (lines ++ more)
      = (a.generate lines).extend (more.map Text.dropTerminator) rest := by
  obtain ⟨rest, hload⟩ := a.load_append lines more
  have hlaid : Statement.SomeEnds (a.load lines).layout.statements :=
    hend.of_unread (unread_layout _).symm
  -- a layout keeps the lines of the statements, which are source lines
  have hlines : ∀ s ∈ (a.load lines).layout.statements,
      s.line ≤ (a.load lines).layout.source.length := by
    intro s hs
    have hmem : s.unread ∈ (a.load lines).statements.map Statement.unread := by
      rw [← unread_layout]
      exact List.mem_map_of_mem hs
    obtain ⟨s', hs', hunread⟩ := List.mem_map.mp hmem
    have hline : s'.unread.line = s.unread.line := by rw [hunread]
    have hrange := ((Statement.inOrder_ofSource (a.load lines).source).2 s' hs').2
    exact Int.le_trans (Int.le_of_eq hline.symm) hrange
  refine ⟨rest, ?_⟩
  unfold generate
  rw [hload, layout_extend hend, code_extend hlaid _ _ hlines]

/-- The assemblies have the same results, whatever their sources are. -/
structure SameResults (a b : Assembly) : Prop where
  /-- The image, segment by segment. -/
  image : a.image = b.image
  /-- The symbol table. -/
  symbols : a.context.symbols = b.context.symbols
  /-- The errors. -/
  errors : a.report.errors = b.report.errors
  /-- The warnings. -/
  warnings : a.report.warnings = b.report.warnings
  /-- Whether the end is missing. -/
  missingEnd : a.missingEnd = b.missingEnd
  /-- The listing. -/
  listing : a.listing = b.listing

/-- **Text behind the end of the program is inert.** -/
theorem sameResults_after_end (a : Assembly) (lines : List Text)
    (hend : ∃ s ∈ (a.load lines).statements, ∃ c : Context, (s.parse c).reading.status = .finish)
    (more more' : List Text) :
    SameResults (a.generate (lines ++ more)) (a.generate (lines ++ more')) := by
  have hends : Statement.SomeEnds (a.load lines).statements := by
    obtain ⟨s, hs, c, hstatus⟩ := hend
    exact ⟨s, hs, (s.status_parse_eq_finish_iff c).mp hstatus⟩
  obtain ⟨rest, hmore⟩ := a.generate_append hends more
  obtain ⟨rest', hmore'⟩ := a.generate_append hends more'
  rw [hmore, hmore']
  exact ⟨rfl, rfl, rfl, rfl, rfl, rfl⟩

/-- Behind the end stand, in one program, the label that its branch asks for, and in the other a
second definition of its own label, code elsewhere and another end.  The branch stays unknown and
the label single, and the listing ends in the second line. -/
theorem sameResults_after_end_label :
    let a := (({} : Assembler).define "BASE".toList 3).seed
    let lines := ["BR LATER", "HERE: DC BASE; END; HERE: NOP"].map String.toList
    let more := ["LATER: NOP", "END"].map String.toList
    let more' := ["HERE: NOP", "ORG #100", "DC 1, 'open"].map String.toList
    (∃ s ∈ (a.load lines).statements, ∃ c : Context, (s.parse c).reading.status = .finish) ∧
      (a.generate (lines ++ more)).report.errorCount = 1 ∧
      (a.generate (lines ++ more)).listing.length = 2 ∧
      SameResults (a.generate (lines ++ more)) (a.generate (lines ++ more')) := by
  intro a lines more more'
  have hend : ∃ s ∈ (a.load lines).statements, ∃ c : Context,
      (s.parse c).reading.status = .finish := by
    refine ⟨(a.load lines).statements.get ⟨2, by decide +kernel⟩, List.get_mem .., {}, ?_⟩
    decide +kernel
  exact ⟨hend, by decide +kernel, by decide +kernel, sameResults_after_end a lines hend more more'⟩

end Assembly

end Cosmac
