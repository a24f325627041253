import Cosmac.Proofs.Counter
import Cosmac.Proofs.Definitions

/-!
# Labels and addresses

A label has the location counter of the layout, and its statement has its code at the location
counter of the coding pass.  A program without errors keeps all sizes, but an origin may refer to a
name that the layout does not know yet, and is then taken to be 0 there.  Behind such an origin the
two counters run apart, and no error tells so.

`labelsHold_iff_originsMeet` says exactly when this happens: without errors, the labels are the
addresses of their statements if and only if for each label the last origin before it comes, from
both of its values, to the same place by the time the label is reached.  With the same value it
does; with different values only a page in between can make it so.
-/

namespace Cosmac

/-! ### Steps without errors -/

namespace Coding

variable {c : Context} {s : Statement} {layout : Option Nat}

theorem error_parse_of_errors_nil (h : (step c layout s).1.errors = []) :
    (s.parse c).reading.status.error? = none := by
  rcases step_cases c layout s with
    ⟨d, _, hstep⟩ | ⟨hfinish, _⟩ | ⟨hnone, _⟩ | ⟨hnone, _⟩
  · rw [hstep] at h
    cases h
  · rw [hfinish]
    rfl
  · exact hnone
  · exact hnone

/-- A step without errors has the statement as it was read, and no other statement has its label. -/
theorem step_of_errors_nil (hbinds : c.symbols.Binds s) (h : (step c layout s).1.errors = []) :
    c.symbols.duplicates (s.parse c) = [] ∧ (step c layout s).1.statement = s.parse c := by
  have hcheck := checkDefinition_eq (s := s.parse c) hbinds (s.label_parse c)
  rcases step_cases c layout s with
    ⟨d, _, hstep⟩ | ⟨_, hstep⟩ | ⟨_, _, _, _, hstep⟩ | ⟨_, _, hstep⟩ <;> rw [hstep] at h ⊢
  · cases h
  · unfold endStep at h ⊢
    rw [hcheck] at h
    exact ⟨h, rfl⟩
  · exact absurd (List.append_eq_nil_iff.mp h).2 nofun
  · unfold emittedStep at h ⊢
    rw [hcheck] at h
    exact ⟨h, rfl⟩

end Coding

theorem SymbolTable.index_of_duplicates_nil {t : SymbolTable} {s : Statement} {name : Text}
    (hbinds : t.Binds s) (hshape : s.reading.label = s.shape.label)
    (hlabel : s.reading.label = some name) (h : t.duplicates s = []) :
    ∃ symbol, t.lookup name = some symbol ∧ symbol.index = s.index := by
  obtain ⟨symbol, hsymbol⟩ := Option.isSome_iff_exists.mp (hbinds name (hshape.symm.trans hlabel))
  refine ⟨symbol, hsymbol, ?_⟩
  unfold SymbolTable.duplicates at h
  simp only [hlabel, hsymbol] at h
  split_ifs at h with hindex
  · exact Decidable.not_not.mp hindex

namespace Coding

/-- **Without errors, the label of every statement is its own**: the symbol of that name has the
position of the statement. -/
theorem index_run (c : Context) (layout : List Nat) (ss : List Statement)
    (hbinds : ∀ st ∈ (run c layout ss).1, c.symbols.Binds st.statement)
    (hclean : ∀ st ∈ (run c layout ss).1, st.errors = []) :
    ∀ st ∈ (run c layout ss).1, ∀ name, st.statement.reading.label = some name →
      ∃ symbol, c.symbols.lookup name = some symbol ∧ symbol.index = st.statement.index := by
  -- the positions in the table stay as they are
  refine forall_run (I := fun c' => c'.symbols.symbols.map Symbol.blank
      = c.symbols.symbols.map Symbol.blank)
    (Q := fun st => c.symbols.Binds st.statement ∧ st.errors = []) ?_ rfl
    fun st hst => ⟨hbinds st hst, hclean st hst⟩
  intro c' layout s hblank hst
  have hbinds' := SymbolTable.binds_of_map_blank hblank ((binds_step ..).mp hst.1)
  refine ⟨?_, by rw [symbols_step _ hbinds', SymbolTable.map_blank_rewrite, hblank]⟩
  intro name hlabel
  obtain ⟨hduplicates, hstatement⟩ := step_of_errors_nil hbinds' hst.2
  rw [hstatement] at hlabel ⊢
  obtain ⟨symbol, hsymbol, hindex⟩ :=
    SymbolTable.index_of_duplicates_nil (s := s.parse c') hbinds' (s.label_parse c') hlabel
      hduplicates
  obtain ⟨symbol', hsymbol', hblank'⟩ := SymbolTable.index_eq_of_map_blank hblank.symm hsymbol
  refine ⟨symbol', hsymbol', ?_⟩
  rw [← hindex]
  show symbol'.blank.index = symbol.blank.index
  rw [hblank']

end Coding

/-! ### The value of a label -/

namespace Assembly

theorem errors_codeRun {a : Assembly} (hclean : a.layout.code.report.errorCount = 0) :
    ∀ st ∈ a.layout.codeRun.1, st.errors = [] := by
  have herrors : a.layout.codeRun.1.flatMap (·.errors) = [] := List.length_eq_zero_iff.mp hclean
  exact List.flatMap_eq_nil_iff.mp herrors

theorem word_before_passes (a : Assembly) :
    ∀ p ∈ a.passes, word p.1.before.pc = p.1.before.pc := by
  refine a.isChain_passes.induction _ _ (fun p q hadjacent _ => ?_) fun hne => ?_
  · rw [hadjacent.layout, Statement.word_leave]
  · rw [(head_passes _ (List.head?_eq_some_head hne)).1]
    rfl

section Label

variable {s : Assembler} {lines : List Text} {p : Passes.Pair} {name : Text} {symbol : Symbol}
  (hp : p ∈ (s.seed.load lines).passes) (hequate : p.2.statement.reading.equate = false)
  (hsymbol : (s.seed.load lines).layout.context.symbols.lookup name = some symbol)
  (hindex : symbol.index = p.2.statement.index)

include hp hequate hsymbol hindex

/-- A symbol with the position of a label has the location counter of the layout. -/
theorem value_label_layout : symbol.value = some p.1.before.pc := by
  have hindices : p.2.statement.index = p.1.statement.index := by
    show p.2.statement.unread.index = p.1.statement.unread.index
    rw [unread_passes _ p hp]
  have hdefines := defines_of_index (fst_mem_of_mem_passes hp) hsymbol
    (hindex.trans (by rw [hindices]))
  have hlayout : p.1.statement.reading.equate = false := by
    obtain ⟨c₁, c₂, st', rfl, _⟩ := exists_of_mem_passes hp
    exact (st'.equate_parse c₁).trans ((Coding.equate_step ..).symm.trans hequate)
  rw [hdefines.value]
  unfold Context.definedValue
  rw [hlayout]
  exact congrArg some (word_before_passes _ p hp)

/-- A symbol with the position of a label stays as it is while code is generated. -/
theorem lookup_label_code :
    (s.seed.generate lines).context.symbols.lookup name = some symbol := by
  show (s.seed.load lines).layout.code.context.symbols.lookup name = _
  rw [symbols_code]
  refine SymbolTable.lookup_rewriteAll_of_ne hsymbol fun s' hs' hstatus hindex' => ?_
  have hsame : s' = p.2.statement := by
    refine List.inj_on_of_nodup_map (nodup_index_codeRun s.seed lines) hs'
      (List.mem_map_of_mem (snd_mem_of_mem_passes hp)) ?_
    exact Int.natCast_inj.mp (hindex'.symm.trans hindex)
  -- the statement of the label would be an equate
  obtain ⟨c₁, c₂, st', rfl, _⟩ := exists_of_mem_passes hp
  rw [hsame, Passes.pair, Coding.status_step_eq_iff c₂ _ st' rfl] at hstatus
  rw [Passes.pair, Coding.equate_step, st'.isEquate_of_status_parse c₂ hstatus] at hequate
  cases hequate

end Label

variable {s : Assembler} {lines : List Text}

/-- **Without errors, a label has the location counter of the layout**, behind both passes. -/
theorem valueOf_label (hclean : (s.seed.generate lines).report.errorCount = 0) :
    ∀ p ∈ (s.seed.load lines).passes, ∀ name ∈ p.2.statement.reading.label,
      p.2.statement.reading.equate = false →
        (s.seed.generate lines).context.symbols.valueOf name = some p.1.before.pc := by
  intro p hp name hname hequate
  obtain ⟨symbol, hsymbol, hindex⟩ := by
    have hrun := Coding.index_run _ _ _ (binds_codeRun (s.seed.load lines)) (errors_codeRun hclean)
    exact hrun p.2 (snd_mem_of_mem_passes hp) name hname
  unfold SymbolTable.valueOf
  rw [lookup_label_code hp hequate hsymbol hindex]
  exact value_label_layout hp hequate hsymbol hindex

end Assembly

/-! ### From the last origin to a label -/

/-- Where the layout comes from an address, past these statements. -/
def Layout.carry (steps : List Layout.Step) (address : Int) : Int :=
  (steps.foldl (fun c st => c.move st.statement) (({} : Context).setPc address)).pc

namespace Passes

/-- Both passes move past the statement as the layout does. -/
def Carries (p : Pair) : Prop :=
  ∀ c : Context, word c.pc = c.pc →
    p.1.statement.leave p.1.statement.reading.size c.pc = (c.move p.1.statement).pc ∧
    p.2.statement.leave p.1.statement.reading.size c.pc = (c.move p.1.statement).pc

/-- **From a statement to a later one** each pass goes as the layout does, if no statement in
between takes them apart. -/
theorem carry_of_isChain {p q : Pair} {between back : List Pair} {c₁ c₂ : Context}
    (hchain : (p :: between ++ q :: back).IsChain Adjacent)
    (hbetween : ∀ r ∈ between, Carries r)
    (h₁ : c₁.pc = p.1.statement.leave p.1.statement.reading.size p.1.before.pc)
    (h₂ : c₂.pc = p.2.statement.leave p.1.statement.reading.size p.2.start) :
    q.1.before.pc = ((between.map Prod.fst).foldl (fun c st => c.move st.statement) c₁).pc ∧
    q.2.start = ((between.map Prod.fst).foldl (fun c st => c.move st.statement) c₂).pc := by
  induction between generalizing p c₁ c₂ with
  | nil =>
    have hadjacent := (List.isChain_cons_cons.mp hchain).1
    exact ⟨hadjacent.layout.trans h₁.symm, hadjacent.coding.trans h₂.symm⟩
  | cons r rest ih =>
    obtain ⟨hadjacent, hrest⟩ := List.isChain_cons_cons.mp hchain
    have hcarries := hbetween r (List.mem_cons_self ..)
    have hword₁ : word c₁.pc = c₁.pc := by rw [h₁, Statement.word_leave]
    have hword₂ : word c₂.pc = c₂.pc := by rw [h₂, Statement.word_leave]
    refine ih hrest (fun r hr => hbetween r (List.mem_cons_of_mem _ hr)) ?_ ?_
    · rw [hadjacent.layout, ← h₁, (hcarries c₁ hword₁).1]
    · rw [hadjacent.coding, ← h₂, (hcarries c₂ hword₂).2]

/-- A list has a last origin, or none. -/
theorem last_origin (l : List Pair) :
    (∀ p ∈ l, p.2.statement.reading.status ≠ .origin) ∨
    ∃ front origin between, l = front ++ origin :: between ∧
      origin.2.statement.reading.status = .origin ∧
      ∀ p ∈ between, p.2.statement.reading.status ≠ .origin := by
  induction l with
  | nil => exact Or.inl fun _ h => absurd h List.not_mem_nil
  | cons p rest ih =>
    rcases ih with hnone | ⟨front, origin, between, rfl, horigin, hbetween⟩
    · by_cases h : p.2.statement.reading.status = .origin
      · exact Or.inr ⟨[], p, rest, rfl, h, hnone⟩
      · refine Or.inl fun q hq => ?_
        rcases List.mem_cons.mp hq with rfl | hq
        · exact h
        · exact hnone q hq
    · exact Or.inr ⟨p :: front, origin, between, rfl, horigin, hbetween⟩

end Passes

namespace Assembly

/-- The label of every statement, unless it is an equate, is the address of the statement. -/
def LabelsHold (a : Assembly) : Prop :=
  ∀ st ∈ a.layout.codeRun.1, ∀ name ∈ st.statement.reading.label,
    st.statement.reading.equate = false →
      a.layout.code.context.symbols.valueOf name = some st.start

instance (a : Assembly) : Decidable a.LabelsHold :=
  inferInstanceAs (Decidable (∀ st ∈ _, _))

/-- From the values that the last origin before a label has in the two passes, the layout comes to
the same place at the label. -/
def OriginsMeet (a : Assembly) : Prop :=
  ∀ origin between labelled, (origin :: between ++ [labelled]) <:+: a.passes →
    origin.2.statement.reading.status = .origin →
    (∀ p ∈ between, p.2.statement.reading.status ≠ .origin) →
    labelled.2.statement.reading.label.isSome = true →
    labelled.2.statement.reading.equate = false →
      Layout.carry (between.map Prod.fst) origin.1.statement.reading.value
        = Layout.carry (between.map Prod.fst) origin.2.statement.reading.value

section Clean

variable {a : Assembly} (hclean : a.layout.code.report.errorCount = 0)

include hclean

/-- Without errors, an origin is one in both passes. -/
theorem origin_iff_of_clean {p : Passes.Pair} (hp : p ∈ a.passes) :
    p.1.statement.reading.status = .origin ↔ p.2.statement.reading.status = .origin := by
  have herrors := errors_codeRun hclean p.2 (snd_mem_of_mem_passes hp)
  obtain ⟨c₁, c₂, s, rfl, hfirst⟩ := exists_of_mem_passes hp
  have hiff : (Passes.pair c₁ c₂ s).2.statement.reading.status = .origin
      ↔ (s.parse c₂).reading.status = .origin := Coding.status_step_eq_iff c₂ _ s rfl
  rw [hiff]
  constructor
  · intro h
    have horigin := s.isOrigin_of_status_parse c₁ h
    rcases s.status_parse c₂ with hstatus | ⟨d, hstatus⟩
    · rw [hstatus]
      revert horigin
      cases s.shape.operation <;> simp [Operation.status, Operation.isOrigin]
    · have hnone := Coding.error_parse_of_errors_nil herrors
      rw [hstatus] at hnone
      cases hnone
  · exact s.status_parse_origin_first (by rw [hfirst]; rfl)

theorem carries_of_clean {p : Passes.Pair} (hp : p ∈ a.passes)
    (h : p.2.statement.reading.status ≠ .origin) : Passes.Carries p := by
  have h₁ : p.1.statement.reading.status ≠ .origin :=
    fun h₁ => h ((origin_iff_of_clean hclean hp).mp h₁)
  obtain ⟨c₁, c₂, s, rfl, _⟩ := exists_of_mem_passes hp
  intro c hword
  have hmove := (Context.pc_move c₁ c s hword).symm
  exact ⟨hmove, (Passes.leave_eq_of_ne h₁ h _ _).symm.trans hmove⟩

theorem carry_origin {origin labelled : Passes.Pair} {between : List Passes.Pair}
    (hwithin : (origin :: between ++ [labelled]) <:+: a.passes)
    (horigin : origin.2.statement.reading.status = .origin)
    (hbetween : ∀ p ∈ between, p.2.statement.reading.status ≠ .origin) :
    labelled.1.before.pc
        = Layout.carry (between.map Prod.fst) origin.1.statement.reading.value ∧
    labelled.2.start
        = Layout.carry (between.map Prod.fst) origin.2.statement.reading.value := by
  have hmem : ∀ p ∈ origin :: between, p ∈ a.passes := fun p hp =>
    hwithin.subset (List.mem_append_left _ hp)
  have hchain := List.IsChain.infix a.isChain_passes hwithin
  refine Passes.carry_of_isChain hchain ?_ ?_ ?_
  · intro p hp
    exact carries_of_clean hclean (hmem p (List.mem_cons_of_mem _ hp)) (hbetween p hp)
  · unfold Statement.leave
    rw [if_pos ((origin_iff_of_clean hclean (hmem _ (List.mem_cons_self ..))).mpr horigin)]
    rfl
  · unfold Statement.leave
    rw [if_pos horigin]
    rfl

end Clean

/-- **Without errors, the labels are right exactly if the origins meet.** -/
theorem labelsHold_iff_originsMeet (s : Assembler) (lines : List Text)
    (hclean : (s.seed.generate lines).report.errorCount = 0) :
    (s.seed.load lines).LabelsHold ↔ (s.seed.load lines).OriginsMeet := by
  constructor
  · intro hlabels origin between labelled hwithin horigin hbetween hlabel hequate
    obtain ⟨name, hname⟩ := Option.isSome_iff_exists.mp hlabel
    have hmem : labelled ∈ (s.seed.load lines).passes :=
      hwithin.subset (List.mem_append_right _ (List.mem_cons_self ..))
    have hvalue := valueOf_label hclean labelled hmem name hname hequate
    have hstart := hlabels labelled.2 (snd_mem_of_mem_passes hmem) name hname hequate
    -- at the label the layout has its value, and the coding pass its address
    obtain ⟨h₁, h₂⟩ := carry_origin hclean hwithin horigin hbetween
    rw [← h₁, ← h₂]
    exact Option.some.inj (hvalue.symm.trans hstart)
  · intro hmeet st hst name hname hequate
    rw [← map_snd_passes] at hst
    obtain ⟨labelled, hmem, rfl⟩ := List.mem_map.mp hst
    refine (valueOf_label hclean labelled hmem name hname hequate).trans (congrArg some ?_)
    obtain ⟨front, back, hpasses⟩ := List.append_of_mem hmem
    rcases Passes.last_origin front with hnone | ⟨front', origin, between, rfl, horigin, hbetween⟩
    · -- without an origin before the label the passes have never parted
      refine before_pc_eq_start hpasses fun p hp => ?_
      have hp' : p ∈ (s.seed.load lines).passes := by
        rw [hpasses]
        exact List.mem_append_left _ hp
      have h₂ := hnone p hp
      have h₁ := fun h => h₂ ((origin_iff_of_clean hclean hp').mp h)
      obtain ⟨c₁, c₂, s', rfl, _⟩ := exists_of_mem_passes hp'
      exact Passes.leave_eq_of_ne h₁ h₂
    · have hwithin : (origin :: between ++ [labelled]) <:+: (s.seed.load lines).passes := by
        refine ⟨front', back, ?_⟩
        rw [hpasses]
        simp
      obtain ⟨h₁, h₂⟩ := carry_origin hclean hwithin horigin hbetween
      rw [h₁, h₂]
      exact hmeet origin between labelled hwithin horigin hbetween
        (by rw [hname]; rfl) hequate

/-- The origin is 0 in the layout and 20 in the coding pass, and the page takes both to 100. -/
theorem labelsHold_iff_originsMeet_page :
    let s : Assembler := { defines := [("SIZE".toList, 0x0020)] }
    let lines :=
      ["A: LDI SIZE", "ORG FAR", "PAGE", "L: LBR L", "FAR = SIZE", "END"].map String.toList
    (s.seed.generate lines).report.errorCount = 0 ∧ (s.seed.load lines).LabelsHold ∧
      (s.seed.load lines).OriginsMeet :=
  ⟨by decide +kernel, by decide +kernel,
    (labelsHold_iff_originsMeet _ _ (by decide +kernel)).mp (by decide +kernel)⟩

/-- No error is reported, but the label `L` is 0 and its statement stands at 100. -/
theorem not_labelsHold_forward_origin :
    let lines := ["ORG X", "L: NOP", "X = #100", "END"].map String.toList
    (({} : Assembler).seed.generate lines).report.errorCount = 0 ∧
      ¬ (({} : Assembler).seed.load lines).LabelsHold := by
  decide +kernel

end Assembly

end Cosmac
