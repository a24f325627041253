import Cosmac.Proofs.Listing

/-!
# The diagnostics of a program

What a statement contributes to the errors is told by its own reading, by its size in the layout and
by the table behind the passes: nothing, the one error that it was read with, a second definition,
a change of size, or the last two (`Coding.contributes_step`).  It gives its code exactly if it is
neither in error nor of another size (`Coding.code_step_eq`).

Over a whole program, the diagnostics of the listing are the errors of the report, in the same order
and each on the line of its statement (`Assembly.diagnostics_accounted`).
-/

namespace Cosmac

/-! ### The errors of a statement -/

namespace Coding

/-- What a statement contributes to the errors, with its size in the layout and the table behind
the passes. -/
inductive Contributes (t : SymbolTable) (room : Nat) (s : Statement) : List Diagnostic → Prop
  /-- It is well formed, has the first definition of its label and has kept its size. -/
  | clean (hstatus : s.reading.status.error? = none) (hlabel : t.duplicates s = [])
    (hsize : s.reading.code.length = room) : Contributes t room s []
  /-- It could not be read. -/
  | failed {d : Diagnostic} (hstatus : s.reading.status = .failed d) (hline : d.line = some s.line)
    (hkind : d.kind ≠ .duplicateSymbol ∧ d.kind ≠ .sizeChanged) : Contributes t room s [d]
  /-- Its label has a definition elsewhere. -/
  | redefined {name : Text} {first : Option Int} (hstatus : s.reading.status.error? = none)
    (hlabel : t.duplicates s = [.duplicate name (some s.line) first])
    (hsize : s.reading.code.length = room) :
    Contributes t room s [.duplicate name (some s.line) first]
  /-- It has changed its size. -/
  | resized (hstatus : s.reading.status.error? = none) (hlabel : t.duplicates s = [])
    (hsize : s.reading.code.length ≠ room) :
    Contributes t room s [.phase room s.reading.code.length (some s.line)]
  /-- Both. -/
  | both {name : Text} {first : Option Int} (hstatus : s.reading.status.error? = none)
    (hlabel : t.duplicates s = [.duplicate name (some s.line) first])
    (hsize : s.reading.code.length ≠ room) :
    Contributes t room s [.duplicate name (some s.line) first,
      .phase room s.reading.code.length (some s.line)]

theorem duplicates_cases (t : SymbolTable) (s : Statement) : t.duplicates s = [] ∨
    ∃ name first, t.duplicates s = [.duplicate name (some s.line) first] := by
  unfold SymbolTable.duplicates
  split
  · exact Or.inl rfl
  · split
    · exact Or.inl rfl
    · split_ifs
      · exact Or.inr ⟨_, _, rfl⟩
      · exact Or.inl rfl

theorem contributes_same {t : SymbolTable} {room : Nat} {s : Statement}
    (hstatus : s.reading.status.error? = none) (hsize : s.reading.code.length = room) :
    Contributes t room s (t.duplicates s) := by
  rcases duplicates_cases t s with h | ⟨name, first, h⟩ <;> rw [h]
  · exact .clean hstatus h hsize
  · exact .redefined hstatus h hsize

theorem contributes_resized {t : SymbolTable} {room : Nat} {s : Statement}
    (hstatus : s.reading.status.error? = none) (hsize : s.reading.code.length ≠ room) :
    Contributes t room s
      (t.duplicates s ++ [.phase room s.reading.code.length (some s.line)]) := by
  rcases duplicates_cases t s with h | ⟨name, first, h⟩ <;> rw [h]
  · exact .resized hstatus h hsize
  · exact .both hstatus h hsize

/-- **What one step contributes.**  The errors of a definition can be told from the table behind the
passes, since the coding pass changes no more than values. -/
theorem contributes_step {c : Context} {s : Statement} {room : Nat} {t : SymbolTable}
    (hblank : c.symbols.symbols.map Symbol.blank = t.symbols.map Symbol.blank)
    (hbinds : t.Binds s) (hroom : s.ends = true → room = 0) :
    Contributes t room (step c (some room) s).1.statement (step c (some room) s).1.errors := by
  have hdefinition : (checkDefinition c (s.parse c)).1 = t.duplicates (s.parse c) := by
    rw [checkDefinition_eq (s := s.parse c) (SymbolTable.binds_of_map_blank hblank hbinds)
      (s.label_parse c), SymbolTable.duplicates_of_map_blank hblank]
  have hsize : (s.parse c).reading.status.error? = none →
      (s.parse c).reading.size = (s.parse c).reading.code.length :=
    Reading.size_ofText c s.text
  rcases step_cases c (some room) s with
    ⟨d, hd, hstep⟩ | ⟨hfinish, hstep⟩ | ⟨hnone, room', hlayout, hne, hstep⟩ |
      ⟨hnone, hsame, hstep⟩ <;> rw [hstep]
  · have hkind : d.kind ≠ .duplicateSymbol ∧ d.kind ≠ .sizeChanged :=
      Shape.kind_resolve_ne c (Shape.tidy_read s.text) hd
    exact .failed rfl rfl hkind
  · -- the end of the program takes no room in either pass
    have hends := (s.status_parse_eq_finish_iff c).mp hfinish
    have hnone : (s.parse c).reading.status.error? = none := by
      rw [hfinish]
      rfl
    have hcode : (s.parse c).reading.code.length = room := by
      rw [← hsize hnone, hroom hends]
      refine s.size_parse_eq_zero c ?_
      rw [of_decide_eq_true hends]
      rfl
    show Contributes t room (s.parse c) (checkDefinition c (s.parse c)).1
    rw [hdefinition]
    exact contributes_same hnone hcode
  · obtain rfl := Option.some.inj hlayout
    have hcode : (s.parse c).reading.code.length ≠ room :=
      fun h => hne (h.symm.trans (hsize hnone).symm)
    show Contributes t room (resize (s.parse c) room) ((checkDefinition c (s.parse c)).1
      ++ [.phase room (s.parse c).reading.size (some s.line)])
    rw [hdefinition, hsize hnone]
    exact contributes_resized (s := resize (s.parse c) room) hnone hcode
  · show Contributes t room (s.parse c) (checkDefinition c (s.parse c)).1
    rw [hdefinition]
    exact contributes_same hnone ((hsize hnone).symm.trans (hsame room rfl).symm)

theorem line_checkDefinition (c : Context) (s : Statement) :
    ∀ d ∈ (checkDefinition c s).1, d.line = some s.line := by
  intro d hd
  unfold checkDefinition at hd
  split at hd
  · exact absurd hd List.not_mem_nil
  · split at hd
    · exact absurd hd List.not_mem_nil
    · split_ifs at hd
      · rw [List.mem_singleton.mp hd]
        rfl
      · exact absurd hd List.not_mem_nil
      · exact absurd hd List.not_mem_nil

/-- **Every error has the line of its statement.** -/
theorem line_step (c : Context) (layout : Option Nat) (s : Statement) :
    ∀ d ∈ (step c layout s).1.errors, d.line = some s.line := by
  intro d hd
  rcases step_cases c layout s with ⟨e, _, h⟩ | ⟨_, h⟩ | ⟨_, room, _, _, h⟩ | ⟨_, _, h⟩ <;>
    rw [h] at hd
  · rw [List.mem_singleton.mp hd]
    rfl
  · exact line_checkDefinition c (s.parse c) d hd
  · rcases List.mem_append.mp hd with hd | hd
    · exact line_checkDefinition c (s.parse c) d hd
    · rw [List.mem_singleton.mp hd]
      rfl
  · exact line_checkDefinition c (s.parse c) d hd

/-- The statement is in error or has changed its size. -/
def Step.silent (st : Step) : Bool :=
  st.statement.reading.status.error?.isSome || st.errors.any (·.kind == .sizeChanged)

/-- **A step puts the code of its statement into the image**, unless it is in error or has changed
its size. -/
theorem code_step_eq (c : Context) (layout : Option Nat) (s : Statement) :
    (step c layout s).1.code
      = if (step c layout s).1.silent then []
        else (step c layout s).1.statement.reading.encode := by
  have hcode : (s.parse c).reading.code = (s.parse c).reading.encode := Reading.code_ofText c s.text
  have hquiet : (s.parse c).reading.status.error? = none →
      ((s.parse c).reading.status.error?.isSome ||
        (checkDefinition c (s.parse c)).1.any (·.kind == .sizeChanged)) = false := by
    intro hnone
    have hany : (checkDefinition c (s.parse c)).1.any (·.kind == .sizeChanged) = false := by
      refine List.any_eq_false.mpr fun d hd => ?_
      simp [kind_checkDefinition c _ d hd]
    rw [hnone, hany]
    rfl
  rcases step_cases c layout s with
    ⟨d, hd, h⟩ | ⟨hfinish, h⟩ | ⟨_, room, _, _, h⟩ | ⟨hnone, _, h⟩ <;> rw [h]
  · rfl
  · have hnone : (s.parse c).reading.status.error? = none := by
      rw [hfinish]
      rfl
    refine Eq.trans ?_ (if_neg (Bool.not_eq_true _ ▸ hquiet hnone)).symm
    show [] = (s.parse c).reading.encode
    unfold Reading.encode
    rw [hfinish]
  · refine (if_pos ?_).symm
    exact Bool.or_eq_true_iff.mpr (Or.inr (List.any_eq_true.mpr
      ⟨_, List.mem_append_right _ (List.mem_singleton_self _), rfl⟩))
  · exact hcode.trans (if_neg (Bool.not_eq_true _ ▸ hquiet hnone)).symm

end Coding

namespace Assembly

open Coding

variable (a : Assembly) (lines : List Text)

/-- Every diagnostic is accounted for: the listing and the report hold the errors of the statements,
each where it belongs, and the image holds the code of the others. -/
structure Accounted (loaded done : Assembly) : Prop where
  /-- The passes go over the statements up to the end of the program. -/
  reached : loaded.passes.map (·.2.statement.unread)
    = (Statement.reach loaded.statements).map Statement.unread
  /-- The diagnostics of the listing, with their lines, are the errors of the report. -/
  listed : done.listing.flatMap (fun l => l.diagnostics.map fun message => (some l.line, message))
    = done.report.errors.map fun d => (d.line, d.kind.message.toList)
  /-- The errors of the report are those of the statements. -/
  reported : done.report.errors = loaded.passes.flatMap (·.2.errors)
  /-- A statement has no errors but those that it calls for. -/
  contributes : ∀ p ∈ loaded.passes, Contributes done.context.symbols p.1.statement.reading.size
    p.2.statement p.2.errors
  /-- The image holds the encoded statements that are neither in error nor of another size. -/
  emitted : done.image.placed = loaded.passes.flatMap fun p =>
    if p.2.silent then [] else Chunk.placed ⟨p.2.start, p.2.statement.reading.encode⟩

theorem contributes_passes : ∀ p ∈ a.passes, Contributes a.layout.code.context.symbols
    p.1.statement.reading.size p.2.statement p.2.errors := by
  have hblank : a.layoutRun.2.symbols.symbols.map Symbol.blank
      = a.layout.code.context.symbols.symbols.map Symbol.blank := by
    rw [symbols_code]
    exact (SymbolTable.map_blank_rewriteAll _ _).symm
  have hbinds : ∀ p ∈ a.passes, a.layout.code.context.symbols.Binds p.2.statement := by
    intro p hp
    refine a.binds_code (a.layoutRun.2.reset .final) a.layout.sizes p.2 ?_
    rw [← codeRun_layout]
    exact snd_mem_of_mem_passes hp
  rw [passes_eq] at hbinds ⊢
  -- the table of the coding pass differs from that at the end in values only
  refine Passes.forall_run (I := fun _ c₂ => c₂.symbols.symbols.map Symbol.blank
      = a.layout.code.context.symbols.symbols.map Symbol.blank)
    (fun c₁ c₂ s hc hbinds => ?_) hblank hbinds
  have hbinds := (binds_step c₂ _ s _).mp hbinds
  refine ⟨contributes_step hc hbinds fun hends => ?_, fun _ => ?_⟩
  · refine s.size_parse_eq_zero c₁ ?_
    rw [of_decide_eq_true hends]
    rfl
  · unfold Passes.next
    rw [symbols_step _ (SymbolTable.binds_of_map_blank hc hbinds), SymbolTable.map_blank_rewrite]
    exact hc

theorem line_codeRun : ∀ st ∈ a.codeRun.1, ∀ d ∈ st.errors, d.line = some st.statement.line := by
  refine Coding.forall_run (I := fun _ => True) (Q := fun _ => True)
    (fun c layout s _ _ => ⟨fun d hd => ?_, trivial⟩) trivial fun _ _ => trivial
  have hline := congrArg Statement.line (unread_step c layout s)
  rw [line_step c layout s d hd]
  exact congrArg some hline.symm

theorem placed_codeRun : ∀ st ∈ a.codeRun.1, st.placed
    = if st.silent then [] else Chunk.placed ⟨st.start, st.statement.reading.encode⟩ := by
  refine Coding.forall_run (I := fun _ => True) (Q := fun _ => True)
    (fun c layout s _ _ => ⟨?_, trivial⟩) trivial fun _ _ => trivial
  unfold Step.placed
  rw [code_step_eq]
  split_ifs <;> rfl

/-- **No diagnostic is lost, invented or misplaced.** -/
theorem diagnostics_accounted : Accounted (a.load lines) (a.generate lines) where
  reached := map_unread_passes _
  listed := by
    refine (a.flatMap_listing lines fun n source address => ?_).trans List.map_flatMap.symm
    show ((List.flatMap _ _).map _).map _ = _
    rw [List.map_map, List.map_flatMap]
    refine List.flatMap_congr fun st hst => List.map_congr_left fun d hd => ?_
    -- the error has the line of its statement, which is the line at hand
    obtain ⟨hmem, hline⟩ := List.mem_filter.mp hst
    rw [(a.load lines).layout.line_codeRun st hmem d hd, beq_iff_eq.mp hline]
    rfl
  reported := errors_passes _
  contributes := (a.load lines).contributes_passes
  emitted := by
    show (imageOf (a.load lines).layout.codeRun.1).placed = _
    rw [placed_imageOf, List.flatMap_congr (a.load lines).layout.placed_codeRun, ← map_snd_passes,
      List.flatMap_map]

end Assembly

end Cosmac
