import Cosmac.Proofs.Counter
import Cosmac.Proofs.Definitions
import Cosmac.Proofs.Faults

/-!
# Programs that stay as they are laid out

Two things can move a statement between the passes: a name that is read as a number before it is
defined, and an origin that refers further down.  `layout_stable` says that there is nothing else.
Without such names and origins

* no statement changes its size, and an error of the layout is an error of the coding pass;
* the two passes reach every statement at the same location counter;
* every value that the layout has found stays as it is.

The argument is one induction over both passes side by side (`Passes.forall_run`).  What the layout
knows at a statement, it knows at the end (`Layout.le_run`), and the table of the coding pass knows
all of that; so the context of the coding pass grows from the one of the layout, and
`Cosmac.Proofs.Extension` says what this does to one statement (`Passes.agrees_of_aligned`).
-/

namespace Cosmac

/-! ### The layout only adds -/

namespace Layout

/-- A definition takes no value away. -/
theorem le_bindLabel (c : Context) (s : Statement) : c.symbols.Le (c.bindLabel s).symbols := by
  refine ⟨fun n v hv => ?_, fun n hn => isSome_lookup_bindLabel hn⟩
  obtain ⟨symbol, hsymbol, hvalue⟩ := SymbolTable.valueOf_eq_some_iff.mp hv
  have hsome : ((c.bindLabel s).symbols.lookup n).isSome = true :=
    isSome_lookup_bindLabel (by rw [hsymbol]; rfl)
  obtain ⟨symbol', hsymbol'⟩ := Option.isSome_iff_exists.mp hsome
  refine SymbolTable.valueOf_eq_some_iff.mpr ⟨symbol', hsymbol', ?_⟩
  unfold Context.bindLabel at hsymbol'
  cases hlabel : s.reading.label with
  | none =>
    rw [hlabel] at hsymbol'
    obtain rfl := Option.some.inj (hsymbol.symm.trans hsymbol')
    exact hvalue
  | some name =>
    rw [hlabel] at hsymbol'
    dsimp only at hsymbol'
    by_cases hname : Text.upper n = Text.upper name
    · -- the name is there already, so it is only marked
      have hold : c.symbols.lookup name = some symbol :=
        (SymbolTable.lookup_congr _ hname).symm.trans hsymbol
      rw [SymbolTable.lookup_bind_of_some hold hname] at hsymbol'
      obtain rfl := Option.some.inj hsymbol'
      exact hvalue
    · rw [SymbolTable.lookup_bind_other hname] at hsymbol'
      obtain rfl := Option.some.inj (hsymbol.symm.trans hsymbol')
      exact hvalue

theorem le_next (c : Context) (s : Statement) : c.symbols.Le (next c s).symbols := by
  rw [symbols_next]
  exact le_bindLabel c _

/-- The layout takes no value away. -/
theorem le_run (c : Context) (ss : List Statement) : c.symbols.Le (run c ss).2.symbols := by
  induction ss generalizing c with
  | nil => exact SymbolTable.Le.refl _
  | cons s rest ih =>
    cases hends : s.ends with
    | true =>
      rw [run_cons_of_ends c rest hends]
      exact le_bindLabel c _
    | false =>
      rw [run_cons c rest hends]
      exact (le_next c s).trans (ih _)

/-- **What is known at a statement is known at the end.** -/
theorem le_of_mem_run (c : Context) (ss : List Statement) :
    ∀ st ∈ (run c ss).1, st.before.symbols.Le (run c ss).2.symbols := by
  induction ss generalizing c with
  | nil => exact fun _ h => absurd h List.not_mem_nil
  | cons s rest ih =>
    intro st hst
    have hall := le_run c (s :: rest)
    cases hends : s.ends with
    | true =>
      rw [run_cons_of_ends c rest hends] at hst hall ⊢
      obtain rfl := List.mem_singleton.mp hst
      exact hall
    | false =>
      rw [run_cons c rest hends] at hst hall ⊢
      rcases List.mem_cons.mp hst with rfl | hst
      · exact hall
      · exact ih _ st hst

end Layout

/-! ### One statement in both passes -/

namespace Passes

/-- **What one pair of steps keeps, both passes keep.**  From an invariant `I` of the two contexts
and a fact `Q` that is known of each pair, `P` follows of each pair. -/
theorem forall_run {I : Context → Context → Prop} {P Q : Pair → Prop}
    (hstep : ∀ c₁ c₂ s, I c₁ c₂ → Q (pair c₁ c₂ s) →
      P (pair c₁ c₂ s) ∧ (s.ends = false → I (Layout.next c₁ s) (next c₁ c₂ s)))
    {c₁ c₂ : Context} {ss : List Statement} (hc : I c₁ c₂)
    (hQ : ∀ p ∈ run c₁ c₂ ss, Q p) : ∀ p ∈ run c₁ c₂ ss, P p := by
  induction ss generalizing c₁ c₂ with
  | nil => exact fun _ h => absurd h List.not_mem_nil
  | cons s rest ih =>
    intro p hp
    cases hends : s.ends with
    | true =>
      rw [run_cons_of_ends c₁ c₂ rest hends] at hQ hp
      obtain rfl := List.mem_singleton.mp hp
      exact (hstep c₁ c₂ s hc (hQ _ hp)).1
    | false =>
      rw [run_cons c₁ c₂ rest hends] at hQ hp
      have hhead := hstep c₁ c₂ s hc (hQ _ (List.mem_cons_self ..))
      rcases List.mem_cons.mp hp with rfl | hp
      · exact hhead.1
      · exact ih (hhead.2 hends) (fun q hq => hQ q (List.mem_cons_of_mem _ hq)) p hp

/-- What the layout tells about a statement, `t` being the table behind it. -/
structure Known (t : SymbolTable) (p : Pair) : Prop where
  /-- The table only grows from here. -/
  before : p.1.before.symbols.Le t
  /-- The label is in the table. -/
  binds : t.Binds p.1.statement
  /-- An origin has a value. -/
  origin : p.1.statement.reading.status = .origin → p.1.statement.reading.unresolved = false
  /-- A symbol with the position of the statement has the value that the statement gave it. -/
  own : ∀ name symbol, t.lookup name = some symbol → symbol.index = p.1.statement.index →
    symbol.value = (p.1.before.definedValue p.1.statement).map word

/-- The passes stand at the same place, and the table of the coding pass has all values of `t`. -/
structure Aligned (t : SymbolTable) (c₁ c₂ : Context) : Prop where
  /-- The location counters agree. -/
  pc : c₁.pc = c₂.pc
  /-- The location counter is a word. -/
  word : word c₁.pc = c₁.pc
  /-- One pass is the layout. -/
  first : c₁.pass.isFinal = false
  /-- The tables differ in values alone. -/
  blank : c₂.symbols.symbols.map Symbol.blank = t.symbols.map Symbol.blank
  /-- No value is lost. -/
  value : ∀ n v, t.valueOf n = some v → c₂.symbols.valueOf n = some v

/-- The coding pass finds the statement as the layout left it. -/
structure Agrees (t : SymbolTable) (p : Pair) : Prop where
  /-- The location counters agree. -/
  start : p.1.before.pc = p.2.start
  /-- An error of the layout is an error of the coding pass. -/
  failed : p.1.statement.reading.status.error?.isSome = true →
    p.2.statement.reading.status.error?.isSome = true
  /-- No change of size is reported. -/
  phase : ∀ d ∈ p.2.errors, d.kind ≠ .sizeChanged
  /-- An equate gives its symbol the value that it has already, if it has one. -/
  value : ∀ name symbol v, t.lookup name = some symbol → symbol.value = some v →
    symbol.index = p.2.statement.index → p.2.statement.reading.status = .equate →
      word p.2.statement.reading.value = v

end Passes

namespace Coding

variable (c : Context) (layout : Option Nat) (s : Statement)

/-- A step is in error exactly if its statement is. -/
@[simp] theorem isSome_error_step :
    (step c layout s).1.statement.reading.status.error?.isSome
      = (s.parse c).reading.status.error?.isSome := by
  rw [status_step]
  cases (s.parse c).reading.status <;> rfl

/-- A step keeps the value of its statement. -/
@[simp] theorem value_step :
    (step c layout s).1.statement.reading.value = (s.parse c).reading.value := by
  rcases step_cases c layout s with ⟨_, _, h⟩ | ⟨_, h⟩ | ⟨_, _, _, _, h⟩ | ⟨_, _, h⟩ <;>
    rw [h] <;> rfl

@[simp] theorem index_step : (step c layout s).1.statement.index = s.index := by
  have hunread := congrArg Statement.index (unread_step c layout s)
  exact hunread

/-- A definition is at most a duplicate. -/
theorem kind_checkDefinition : ∀ d ∈ (checkDefinition c s).1, d.kind = .duplicateSymbol := by
  intro d hd
  unfold checkDefinition at hd
  split at hd
  · exact absurd hd List.not_mem_nil
  · split at hd
    · exact absurd hd List.not_mem_nil
    · split_ifs at hd
      · obtain rfl := List.mem_singleton.mp hd
        rfl
      · exact absurd hd List.not_mem_nil
      · exact absurd hd List.not_mem_nil

/-- Without a change of size, none is reported. -/
theorem kind_step
    (hsize : ∀ room, layout = some room → (s.parse c).reading.status.error? = none →
      room = (s.parse c).reading.size) :
    ∀ d ∈ (step c layout s).1.errors, d.kind ≠ .sizeChanged := by
  intro d hd
  rcases step_cases c layout s with
    ⟨e, he, h⟩ | ⟨_, h⟩ | ⟨hnone, room, hlayout, hne, _⟩ | ⟨_, _, h⟩
  · rw [h] at hd
    obtain rfl := List.mem_singleton.mp hd
    -- the line is added, the kind is the one of the statement
    exact (Shape.kind_resolve_ne c (Shape.tidy_read s.text) he).2
  · rw [h] at hd
    simp [kind_checkDefinition c _ d hd]
  · exact absurd (hsize room hlayout hnone) hne
  · rw [h] at hd
    simp [kind_checkDefinition c _ d hd]

end Coding

theorem SymbolTable.plain_of_map_blank {t t' : SymbolTable}
    (h : t'.symbols.map Symbol.blank = t.symbols.map Symbol.blank) (hplain : t.Plain) :
    t'.Plain := by
  intro symbol hsymbol
  have hmem : symbol.blank ∈ t.symbols.map Symbol.blank := by
    rw [← h]
    exact List.mem_map_of_mem hsymbol
  obtain ⟨symbol', hsymbol', hblank⟩ := List.mem_map.mp hmem
  have hname : symbol'.blank.name = symbol.blank.name := congrArg Symbol.name hblank
  have hname : symbol'.name = symbol.name := hname
  rw [← hname]
  exact hplain symbol' hsymbol'

/-- Equates leave a value alone if those of the symbol give it again. -/
theorem SymbolTable.valueOf_rewriteAll {t : SymbolTable} {ss : List Statement} {n : Text}
    {symbol : Symbol} {v : Int} (hsymbol : t.lookup n = some symbol)
    (hvalue : symbol.value = some v)
    (hsame : ∀ s ∈ ss, symbol.index = s.index → s.reading.status = .equate →
      word s.reading.value = v) : (t.rewriteAll ss).valueOf n = some v := by
  induction ss generalizing t symbol with
  | nil => exact valueOf_eq_some_iff.mpr ⟨symbol, hsymbol, hvalue⟩
  | cons s rest ih =>
    have hnext : (t.rewrite s).lookup n = some (redefine s n symbol) := by
      rw [lookup_rewrite, hsymbol]
      rfl
    rw [rewriteAll_cons]
    refine ih hnext ?_ fun s' hs' => ?_
    · -- an equate of the symbol gives it this value again, and any other statement leaves it
      unfold redefine
      split_ifs with hown
      · exact congrArg some (hsame s (List.mem_cons_self ..) hown.2.1 hown.1)
      · exact hvalue
    · rw [index_redefine]
      exact hsame s' (List.mem_cons_of_mem _ hs')

namespace Passes

section Step

variable {t : SymbolTable} {c₁ c₂ : Context} {s : Statement} (hplain : t.Plain)
  (haligned : Aligned t c₁ c₂) (hknown : Known t (pair c₁ c₂ s))

include hplain haligned hknown

/-- **Where the passes are aligned, the coding pass knows all that the layout knows.** -/
theorem grows_of_aligned : c₁.Grows c₂ := by
  have hplain₂ : c₂.symbols.Plain := SymbolTable.plain_of_map_blank haligned.blank hplain
  have hle : t.Le c₂.symbols := by
    refine ⟨haligned.value, fun n hn => ?_⟩
    have hlookup := congrArg Option.isSome (SymbolTable.map_blank_lookup haligned.blank n)
    rw [Option.isSome_map, Option.isSome_map] at hlookup
    rw [hlookup]
    exact hn
  exact ⟨haligned.pc.symm, hknown.before.trans hle,
    fun n hname hnumeral _ => SymbolTable.lookup_of_plain hplain₂ hname hnumeral⟩

/-- An origin or equate that the layout has evaluated is read in the same way again. -/
theorem parse_of_aligned
    (hlast : s.shape.operation.isOrigin = true ∨ s.shape.operation.isEquate = true)
    (h : (s.parse c₁).reading.status.error? = none)
    (hvalue : (s.parse c₁).reading.unresolved = false) : s.parse c₂ = s.parse c₁ := by
  have hresolve := Shape.value_of_grows (grows_of_aligned hplain haligned hknown)
    (Shape.tidy_read s.text) hlast h hvalue
  show { s with reading := (Shape.read s.text).resolve c₂ } = _
  rw [hresolve]
  rfl

/-- Where the passes are aligned, an origin has the same value in both or is in error in both. -/
theorem originAgrees_of_aligned : OriginAgrees (pair c₁ c₂ s) := by
  intro horigin
  have hstatus : (s.parse c₁).reading.status = .origin ∨
      ∃ d, (s.parse c₁).reading.status = .failed d := by
    rcases s.status_parse c₁ with h | h
    · left
      rw [h]
      revert horigin
      cases hop : s.shape.operation with
      | origin operand fault => exact fun _ => rfl
      | _ =>
        intro horigin
        have horigin : s.shape.operation.isOrigin = true := horigin
        rw [hop] at horigin
        cases horigin
    · exact Or.inr h
  rcases hstatus with h | ⟨d, h⟩
  · -- the origin was evaluated in the layout, with all its names known
    left
    have hparse := parse_of_aligned hplain haligned hknown (Or.inl horigin) (by rw [h]; rfl)
      (hknown.origin h)
    refine ⟨h, ?_, ?_⟩
    · show (Coding.step c₂ _ s).1.statement.reading.status = _
      rw [Coding.status_step_eq_iff c₂ _ s rfl, hparse]
      exact h
    · show (s.parse c₁).reading.value = (Coding.step c₂ _ s).1.statement.reading.value
      rw [Coding.value_step, hparse]
  · -- an error of the layout stays one
    right
    have hfailed : (s.parse c₁).reading.status.error?.isSome = true := by
      rw [h]
      rfl
    refine ⟨hfailed, ?_⟩
    show (Coding.step c₂ _ s).1.statement.reading.status.error?.isSome = true
    rw [Coding.isSome_error_step]
    exact Shape.failed_of_grows (grows_of_aligned hplain haligned hknown) haligned.first
      (Shape.tidy_read s.text) hfailed

/-- **Where the passes are aligned, they agree about the statement.** -/
theorem agrees_of_aligned : Agrees t (pair c₁ c₂ s) := by
  have hgrows := grows_of_aligned hplain haligned hknown
  have htidy := Shape.tidy_read s.text
  refine ⟨?_, fun h => ?_, ?_, ?_⟩
  · show c₁.pc = (Coding.step c₂ _ s).1.start
    rw [Coding.start_step, haligned.pc]
  · show (Coding.step c₂ _ s).1.statement.reading.status.error?.isSome = true
    rw [Coding.isSome_error_step]
    exact Shape.failed_of_grows hgrows haligned.first htidy h
  · refine Coding.kind_step c₂ _ s fun room hroom hnone => ?_
    obtain rfl := Option.some.inj hroom
    -- an error in the layout would be one here
    have hnone₁ : (s.parse c₁).reading.status.error? = none := by
      by_contra hsome
      have hfailed := Shape.failed_of_grows hgrows haligned.first htidy
        (Option.isSome_iff_ne_none.mpr hsome)
      have hfailed : (s.parse c₂).reading.status.error?.isSome = true := hfailed
      rw [hnone] at hfailed
      cases hfailed
    exact Shape.size_of_grows hgrows htidy hnone₁ hnone
  · intro name symbol v hsymbol hvalue hindex hequate
    have hequate : (s.parse c₂).reading.status = .equate :=
      (Coding.status_step_eq_iff c₂ _ s rfl).mp hequate
    have hshape := s.isEquate_of_status_parse c₂ hequate
    have hown := hknown.own name symbol hsymbol (hindex.trans (by
      show ((Coding.step c₂ _ s).1.statement.index : Int) = _
      rw [Coding.index_step]
      rfl))
    -- the symbol has a value, so the layout has evaluated the equate
    have hform : (s.parse c₁).reading.equate = true := (s.equate_parse c₁).trans hshape
    have hown : symbol.value = (c₁.definedValue (s.parse c₁)).map word := hown
    unfold Context.definedValue at hown
    rw [hvalue, if_pos hform] at hown
    split_ifs at hown with hunknown
    · cases hown
    · rw [Bool.or_eq_true, not_or] at hunknown
      have hparse := parse_of_aligned hplain haligned hknown (Or.inr hshape)
        (Option.not_isSome_iff_eq_none.mp hunknown.1) (Bool.eq_false_iff.mpr hunknown.2)
      show word (Coding.step c₂ _ s).1.statement.reading.value = v
      rw [Coding.value_step, hparse]
      exact (Option.some.inj hown).symm

/-- **One statement keeps the passes aligned.** -/
theorem aligned_next (hends : s.ends = false) :
    Aligned t (Layout.next c₁ s) (next c₁ c₂ s) := by
  have hagrees := agrees_of_aligned hplain haligned hknown
  have hword₂ : Cosmac.word c₂.pc = c₂.pc := haligned.pc ▸ haligned.word
  have hpc₁ := Layout.pc_next (s := s) haligned.word
  have hpc₂ : (next c₁ c₂ s).pc = _ :=
    Coding.pc_step hword₂ hends (s.size_parse_eq_zero c₁)
  have hbinds : c₂.symbols.Binds s :=
    SymbolTable.binds_of_map_blank haligned.blank hknown.binds
  have hsymbols : (next c₁ c₂ s).symbols = c₂.symbols.rewrite (pair c₁ c₂ s).2.statement :=
    Coding.symbols_step _ hbinds
  have hblank : (next c₁ c₂ s).symbols.symbols.map Symbol.blank
      = t.symbols.map Symbol.blank := by
    rw [hsymbols, SymbolTable.map_blank_rewrite, haligned.blank]
  refine ⟨?_, ?_, ?_, hblank, fun n v hv => ?_⟩
  · rw [hpc₁, hpc₂, haligned.pc]
    exact leave_eq_of_originAgrees (originAgrees_of_aligned hplain haligned hknown) _ _
  · rw [hpc₁, Statement.word_leave]
  · rw [Layout.pass_next]
    exact haligned.first
  · rw [hsymbols]
    obtain ⟨old, hold, hvalue⟩ := SymbolTable.valueOf_eq_some_iff.mp hv
    obtain ⟨symbol, hsymbol, hvalue₂⟩ :=
      SymbolTable.valueOf_eq_some_iff.mp (haligned.value n v hv)
    -- both tables have the symbol at one position
    obtain ⟨symbol', hsymbol', hblank'⟩ :=
      SymbolTable.index_eq_of_map_blank haligned.blank hold
    obtain rfl := Option.some.inj (hsymbol.symm.trans hsymbol')
    have hindex : old.blank.index = symbol.blank.index := (congrArg Symbol.index hblank').symm
    show (c₂.symbols.rewriteAll [(pair c₁ c₂ s).2.statement]).valueOf n = some v
    refine SymbolTable.valueOf_rewriteAll hsymbol hvalue₂ fun s' hs' hposition => ?_
    obtain rfl := List.mem_singleton.mp hs'
    exact hagrees.value n old v hold hvalue (hindex.trans hposition)

end Step

end Passes

/-! ### Whole programs -/

namespace Assembly

/-- No origin refers to a name that is unknown so far. -/
def OriginsKnown (a : Assembly) : Prop :=
  ∀ st ∈ a.layoutRun.1, st.statement.reading.status = .origin →
    st.statement.reading.unresolved = false

instance (a : Assembly) : Decidable a.OriginsKnown :=
  inferInstanceAs (Decidable (∀ st ∈ a.layoutRun.1, _ → _))

/-- The coding pass finds the program as it is laid out. -/
structure Stable (a : Assembly) : Prop where
  /-- No change of size is reported. -/
  phase : ∀ d ∈ a.layout.code.report.errors, d.kind ≠ .sizeChanged
  /-- Every statement that is in error in the layout is in error in the coding pass. -/
  failed : ∀ p ∈ a.passes, p.1.statement.reading.status.error?.isSome = true →
    p.2.statement.reading.status.error?.isSome = true
  /-- Both passes reach each statement at the same location counter. -/
  start : a.layout.codeRun.1.map (·.start) = a.layoutRun.1.map (·.before.pc)
  /-- No value changes. -/
  value : ∀ n v, a.layout.context.symbols.valueOf n = some v →
    a.layout.code.context.symbols.valueOf n = some v

variable {s : Assembler} {lines : List Text}

/-- The layout tells what is known about each statement. -/
theorem known_passes (horigins : (s.seed.load lines).OriginsKnown) :
    ∀ p ∈ (s.seed.load lines).passes,
      Passes.Known (s.seed.load lines).layout.context.symbols p := by
  intro p hp
  have hmem := fst_mem_of_mem_passes hp
  exact ⟨Layout.le_of_mem_run _ _ p.1 hmem, Layout.binds_run _ _ p.1 hmem, horigins p.1 hmem,
    fun name symbol hsymbol hindex => (defines_of_index hmem hsymbol hindex).value⟩

/-- **The passes agree about every statement.** -/
theorem agrees_passes (hplain : (s.seed.load lines).layout.context.symbols.Plain)
    (horigins : (s.seed.load lines).OriginsKnown) :
    ∀ p ∈ (s.seed.load lines).passes,
      Passes.Agrees (s.seed.load lines).layout.context.symbols p := by
  have hknown := known_passes horigins
  rw [passes_eq] at hknown ⊢
  refine Passes.forall_run (I := Passes.Aligned (s.seed.load lines).layout.context.symbols)
    (fun c₁ c₂ st haligned hpair => ?_) ?_ hknown
  · exact ⟨Passes.agrees_of_aligned hplain haligned hpair,
      Passes.aligned_next hplain haligned hpair⟩
  · exact ⟨rfl, rfl, rfl, rfl, fun _ _ hv => hv⟩

/-- No statement of the coding pass takes a value of the layout away, nor do several. -/
theorem valueOf_rewriteAll_of_agrees {a : Assembly}
    (hagrees : ∀ p ∈ a.passes, Passes.Agrees a.layout.context.symbols p) {ss : List Statement}
    (hss : ∀ st ∈ ss, st ∈ a.layout.codeRun.1.map (·.statement)) {n : Text} {v : Int}
    (hv : a.layout.context.symbols.valueOf n = some v) :
    (a.layout.context.symbols.rewriteAll ss).valueOf n = some v := by
  obtain ⟨symbol, hsymbol, hvalue⟩ := SymbolTable.valueOf_eq_some_iff.mp hv
  refine SymbolTable.valueOf_rewriteAll hsymbol hvalue fun st hst hindex hequate => ?_
  have hst := hss st hst
  rw [← map_snd_passes, List.map_map] at hst
  obtain ⟨p, hp, rfl⟩ := List.mem_map.mp hst
  exact (hagrees p hp).value n symbol v hsymbol hvalue hindex hequate

/-- **A program is stable** if no name looks like a number or a register and no origin refers to a
name that is unknown so far. -/
theorem layout_stable (s : Assembler) (lines : List Text)
    (hplain : (s.seed.load lines).layout.context.symbols.Plain)
    (horigins : (s.seed.load lines).OriginsKnown) : (s.seed.load lines).Stable := by
  have hagrees := agrees_passes hplain horigins
  refine ⟨fun d hd => ?_, fun p hp => (hagrees p hp).failed, ?_, fun n v hv => ?_⟩
  · obtain ⟨st, hst, hd⟩ := List.mem_flatMap.mp hd
    rw [← map_snd_passes] at hst
    obtain ⟨p, hp, rfl⟩ := List.mem_map.mp hst
    exact (hagrees p hp).phase d hd
  · rw [← map_snd_passes, ← map_fst_passes, List.map_map, List.map_map]
    exact List.map_congr_left fun p hp => (hagrees p hp).start.symm
  · rw [symbols_code]
    exact valueOf_rewriteAll_of_agrees hagrees (fun st hst => hst) hv

/-- A predefined origin, references and equates in both directions, and errors of several kinds. -/
theorem layout_stable_mixed :
    let s : Assembler := { defines := [("BASE".toList, 0x0100)] }
    let lines := ["ORG BASE", "LDI K", "K = LATER+1", "SEX REG", "REG = 3", "DC LATER, K, NOWHERE",
      "BR #0010", "LATER: LDI #ZZ", "REG: PLO R16", "ORG LATER", "PAGE", "LBR LATER", "END"].map
        String.toList
    (s.seed.load lines).layout.context.symbols.Plain ∧ (s.seed.load lines).OriginsKnown ∧
      (s.seed.load lines).Stable := by
  intro s lines
  have hplain : (s.seed.load lines).layout.context.symbols.Plain := by decide +kernel
  have horigins : (s.seed.load lines).OriginsKnown := by decide +kernel
  exact ⟨hplain, horigins, layout_stable s lines hplain horigins⟩

end Assembly

end Cosmac
