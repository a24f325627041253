import Cosmac.Proofs.Passes
import Mathlib.Data.List.Nodup

/-!
# Who defines a symbol and who rewrites it

The layout defines symbols: a symbol behind it was in the table before, or it has the position and
the value of the step that defined it (`Layout.lookup_run`), and the label of every statement that
was reached is in the table (`Layout.binds_run`).

The coding pass rewrites values: the table behind it is the table before, rewritten by each
statement in turn (`Coding.symbols_run`).  Since the statements have different positions, no two of
them rewrite the same symbol.  So a symbol that no equate defines keeps its value
(`SymbolTable.lookup_rewriteAll_of_ne`), and rewriting once more by one of the statements changes
nothing (`SymbolTable.rewrite_rewriteAll`).
-/

namespace Cosmac

/-! ### Definitions in the layout -/

namespace Layout

/-- The step defined this symbol, found under the name `m`. -/
structure Step.Defines (st : Step) (m : Text) (symbol : Symbol) : Prop where
  /-- The label of its statement is that name. -/
  label : ∃ name, st.statement.reading.label = some name ∧ Text.upper name = Text.upper m
  /-- The symbol has the position of the statement. -/
  index : symbol.index = st.statement.index
  /-- The symbol has the value that the statement gave it. -/
  value : symbol.value = (st.before.definedValue st.statement).map word

theorem lookup_bindLabel {c : Context} {s : Statement} {m : Text} {symbol : Symbol}
    (h : (c.bindLabel s).symbols.lookup m = some symbol) :
    (∃ old, c.symbols.lookup m = some old ∧ symbol.index = old.index ∧
      symbol.value = old.value) ∨ Step.Defines ⟨c, s⟩ m symbol := by
  unfold Context.bindLabel at h
  cases hlabel : s.reading.label with
  | none =>
    rw [hlabel] at h
    exact Or.inl ⟨symbol, h, rfl, rfl⟩
  | some name =>
    rw [hlabel] at h
    dsimp only at h
    by_cases hname : Text.upper m = Text.upper name
    · -- a name that is there already is only marked
      cases hold : c.symbols.lookup name with
      | some old =>
        rw [SymbolTable.lookup_bind_of_some hold hname] at h
        obtain rfl := Option.some.inj h
        exact Or.inl ⟨old, (SymbolTable.lookup_congr _ hname).trans hold, rfl, rfl⟩
      | none =>
        rw [SymbolTable.lookup_bind_of_none hold hname] at h
        obtain rfl := Option.some.inj h
        exact Or.inr ⟨⟨name, hlabel, hname.symm⟩, rfl, rfl⟩
    · rw [SymbolTable.lookup_bind_other hname] at h
      exact Or.inl ⟨symbol, h, rfl, rfl⟩

theorem symbols_next (c : Context) (s : Statement) :
    (next c s).symbols = (c.bindLabel (s.parse c)).symbols :=
  Context.symbols_move _ _

/-- **A symbol behind the layout** was there before, or a step of the layout defined it. -/
theorem lookup_run (c : Context) (ss : List Statement) {m : Text} {symbol : Symbol}
    (h : (run c ss).2.symbols.lookup m = some symbol) :
    (∃ old, c.symbols.lookup m = some old ∧ symbol.index = old.index ∧
      symbol.value = old.value) ∨ ∃ st ∈ (run c ss).1, st.Defines m symbol := by
  induction ss generalizing c with
  | nil => exact Or.inl ⟨symbol, h, rfl, rfl⟩
  | cons s rest ih =>
    cases hends : s.ends with
    | true =>
      rw [run_cons_of_ends c rest hends] at h ⊢
      rcases lookup_bindLabel h with hold | hnew
      · exact Or.inl hold
      · exact Or.inr ⟨_, List.mem_cons_self .., hnew⟩
    | false =>
      rw [run_cons c rest hends] at h ⊢
      -- what the later steps found in the table may be from before, or from this step
      rcases ih (next c s) h with ⟨old, hold, hindex, hvalue⟩ | ⟨st, hst, hdefines⟩
      · rw [symbols_next] at hold
        rcases lookup_bindLabel hold with ⟨older, holder, hindex', hvalue'⟩ | hnew
        · exact Or.inl ⟨older, holder, hindex.trans hindex', hvalue.trans hvalue'⟩
        · exact Or.inr ⟨_, List.mem_cons_self .., hnew.label, hindex.trans hnew.index,
            hvalue.trans hnew.value⟩
      · exact Or.inr ⟨st, List.mem_cons_of_mem _ hst, hdefines⟩

theorem isSome_lookup_bindLabel {c : Context} {s : Statement} {m : Text}
    (h : (c.symbols.lookup m).isSome = true) :
    ((c.bindLabel s).symbols.lookup m).isSome = true := by
  unfold Context.bindLabel
  split
  · exact h
  · rename_i name _
    dsimp only
    by_cases hname : Text.upper m = Text.upper name
    · rw [SymbolTable.lookup_congr _ hname] at h
      obtain ⟨old, hold⟩ := Option.isSome_iff_exists.mp h
      rw [SymbolTable.lookup_bind_of_some hold hname]
      rfl
    · rw [SymbolTable.lookup_bind_other hname]
      exact h

theorem isSome_lookup_run {c : Context} (ss : List Statement) {m : Text}
    (h : (c.symbols.lookup m).isSome = true) :
    ((run c ss).2.symbols.lookup m).isSome = true := by
  induction ss generalizing c with
  | nil => exact h
  | cons s rest ih =>
    cases hends : s.ends with
    | true =>
      rw [run_cons_of_ends c rest hends]
      exact isSome_lookup_bindLabel h
    | false =>
      rw [run_cons c rest hends]
      apply ih
      rw [symbols_next]
      exact isSome_lookup_bindLabel h

theorem binds_bindLabel (c : Context) (s : Statement) :
    (c.bindLabel (s.parse c)).symbols.Binds s := by
  intro name hname
  unfold Context.bindLabel
  rw [s.label_parse c, hname]
  dsimp only
  cases hold : c.symbols.lookup name with
  | some old =>
    rw [SymbolTable.lookup_bind_of_some hold rfl]
    rfl
  | none =>
    rw [SymbolTable.lookup_bind_of_none hold rfl]
    rfl

/-- **Every label that the layout reaches is in the table.** -/
theorem binds_run (c : Context) (ss : List Statement) :
    ∀ st ∈ (run c ss).1, (run c ss).2.symbols.Binds st.statement := by
  induction ss generalizing c with
  | nil => exact fun _ h => absurd h List.not_mem_nil
  | cons s rest ih =>
    intro st hst
    cases hends : s.ends with
    | true =>
      rw [run_cons_of_ends c rest hends] at hst ⊢
      obtain rfl := List.mem_singleton.mp hst
      exact binds_bindLabel c s
    | false =>
      rw [run_cons c rest hends] at hst ⊢
      rcases List.mem_cons.mp hst with rfl | hst
      · -- bound at this step, the name stays in the table
        intro name hname
        apply isSome_lookup_run
        rw [symbols_next]
        exact binds_bindLabel c s name hname
      · exact ih (next c s) st hst

end Layout

/-! ### Rewriting while code is generated -/

namespace SymbolTable

/-- The table behind the definitions of several statements. -/
def rewriteAll (t : SymbolTable) (ss : List Statement) : SymbolTable := ss.foldl rewrite t

@[simp] theorem rewriteAll_cons (t : SymbolTable) (s : Statement) (ss : List Statement) :
    t.rewriteAll (s :: ss) = (t.rewrite s).rewriteAll ss := rfl

@[simp] theorem rewriteAll_append (t : SymbolTable) (ss ss' : List Statement) :
    t.rewriteAll (ss ++ ss') = (t.rewriteAll ss).rewriteAll ss' :=
  List.foldl_append

/-- A statement leaves the table alone, or it is an equate and gives its own symbol its value. -/
theorem rewrite_cases (t : SymbolTable) (s : Statement) :
    t.rewrite s = t ∨
    ∃ name symbol, s.reading.label = some name ∧ t.lookup name = some symbol ∧
      symbol.index = s.index ∧ s.reading.status = .equate ∧
      t.rewrite s = t.assign name (word s.reading.value) := by
  unfold rewrite
  cases hlabel : s.reading.label with
  | none => exact Or.inl rfl
  | some name =>
    cases hsymbol : t.lookup name with
    | none => exact Or.inl (by simp only [hsymbol])
    | some symbol =>
      by_cases h : symbol.index = s.index ∧ s.reading.status = .equate
      · refine Or.inr ⟨name, symbol, rfl, hsymbol, h.1, h.2, ?_⟩
        simp only [hsymbol, if_pos h]
      · refine Or.inl ?_
        simp only [hsymbol, if_neg h]

@[simp] theorem map_blank_rewrite (t : SymbolTable) (s : Statement) :
    (t.rewrite s).symbols.map Symbol.blank = t.symbols.map Symbol.blank := by
  rcases rewrite_cases t s with h | ⟨name, symbol, _, _, _, _, h⟩
  · rw [h]
  · rw [h]
    exact map_blank_assign t name _

@[simp] theorem map_blank_rewriteAll (t : SymbolTable) (ss : List Statement) :
    (t.rewriteAll ss).symbols.map Symbol.blank = t.symbols.map Symbol.blank := by
  induction ss generalizing t with
  | nil => rfl
  | cons s rest ih => rw [rewriteAll_cons, ih, map_blank_rewrite]

/-- Tables that differ in values alone find a name together, at the same position. -/
theorem index_eq_of_map_blank {t t' : SymbolTable} {m : Text} {symbol : Symbol}
    (h : t'.symbols.map Symbol.blank = t.symbols.map Symbol.blank)
    (hsymbol : t.lookup m = some symbol) :
    ∃ symbol', t'.lookup m = some symbol' ∧ symbol'.blank = symbol.blank := by
  have hlookup := map_blank_lookup h m
  rw [hsymbol] at hlookup
  obtain ⟨symbol', hsymbol', hblank⟩ := Option.map_eq_some_iff.mp hlookup
  exact ⟨symbol', hsymbol', hblank⟩

/-- The errors of a definition do not depend on the values in the table. -/
theorem duplicates_of_map_blank {t t' : SymbolTable}
    (h : t'.symbols.map Symbol.blank = t.symbols.map Symbol.blank) (s : Statement) :
    t'.duplicates s = t.duplicates s := by
  unfold duplicates
  cases s.reading.label with
  | none => rfl
  | some name =>
    have hlookup := map_blank_lookup h name
    dsimp only
    cases ht : t.lookup name with
    | none =>
      rw [ht] at hlookup
      rw [Option.map_eq_none_iff.mp hlookup]
    | some symbol =>
      obtain ⟨symbol', hsymbol', hblank⟩ := index_eq_of_map_blank h ht
      have hname := congrArg Symbol.name hblank
      have hindex := congrArg Symbol.index hblank
      have hline := congrArg Symbol.line hblank
      dsimp only [Symbol.blank] at hname hindex hline
      rw [hsymbol']
      dsimp only
      rw [hname, hindex, hline]

theorem binds_of_map_blank {t t' : SymbolTable} {s : Statement}
    (h : t'.symbols.map Symbol.blank = t.symbols.map Symbol.blank) (hbinds : t.Binds s) :
    t'.Binds s := by
  intro name hname
  obtain ⟨symbol, hsymbol⟩ := Option.isSome_iff_exists.mp (hbinds name hname)
  obtain ⟨symbol', hsymbol', _⟩ := index_eq_of_map_blank h hsymbol
  rw [hsymbol']
  rfl

theorem binds_of_unread {t : SymbolTable} {ss ss' : List Statement}
    (h : ss.map Statement.unread = ss'.map Statement.unread) (hbinds : ∀ s ∈ ss, t.Binds s) :
    ∀ s ∈ ss', t.Binds s := by
  intro s hs name hname
  have hmem : s.unread ∈ ss.map Statement.unread := h ▸ List.mem_map_of_mem hs
  obtain ⟨s', hs', hunread⟩ := List.mem_map.mp hmem
  rw [← Statement.shape_eq_of_unread_eq hunread] at hname
  exact hbinds s' hs' name hname

/-- The symbol, found under the name `m`, behind the definition that a statement makes. -/
def redefine (s : Statement) (m : Text) (symbol : Symbol) : Symbol :=
  if s.reading.status = .equate ∧ symbol.index = s.index ∧
      s.reading.label.map Text.upper = some (Text.upper m) then
    { symbol with value := some (word s.reading.value) }
  else symbol

/-- **What is found behind a definition** depends on what was found before, and on nothing else in
the table. -/
@[simp] theorem lookup_rewrite (t : SymbolTable) (s : Statement) (m : Text) :
    (t.rewrite s).lookup m = (t.lookup m).map (redefine s m) := by
  by_cases hlabel : s.reading.label.map Text.upper = some (Text.upper m)
  · obtain ⟨name, hname, hupper⟩ := Option.map_eq_some_iff.mp hlabel
    rw [← lookup_congr t hupper]
    cases hsymbol : t.lookup name with
    | none =>
      have hrewrite : t.rewrite s = t := by
        unfold rewrite
        simp only [hname, hsymbol]
      rw [hrewrite, ← lookup_congr t hupper, hsymbol]
      rfl
    | some symbol =>
      unfold rewrite redefine
      simp only [hname, hsymbol, Option.map_some, hupper]
      by_cases h : symbol.index = s.index ∧ s.reading.status = .equate
      · rw [if_pos h, if_pos ⟨h.2, h.1, trivial⟩, lookup_assign_same t _ hupper.symm,
          ← lookup_congr t hupper, hsymbol]
        rfl
      · rw [if_neg h, if_neg fun h' => h ⟨h'.2.1, h'.1⟩, ← lookup_congr t hupper, hsymbol]
  · have hredefine : redefine s m = id := by
      funext symbol
      exact if_neg fun h => hlabel h.2.2
    rw [hredefine, Option.map_id, id]
    rcases rewrite_cases t s with h | ⟨name, own, hname, _, _, _, h⟩
    · rw [h]
    · rw [h, lookup_assign_other]
      intro hupper
      rw [hname, hupper] at hlabel
      exact hlabel rfl

theorem redefine_of_ne {s : Statement} {m : Text} {symbol : Symbol}
    (h : s.reading.status = .equate → symbol.index ≠ s.index) : redefine s m symbol = symbol :=
  if_neg fun hall => h hall.1 hall.2.1

@[simp] theorem index_redefine (s : Statement) (m : Text) (symbol : Symbol) :
    (redefine s m symbol).index = symbol.index := by
  unfold redefine
  split <;> rfl

/-- **A symbol that no equate defines keeps its value.** -/
theorem lookup_rewriteAll_of_ne {t : SymbolTable} {ss : List Statement} {m : Text}
    {symbol : Symbol} (hsymbol : t.lookup m = some symbol)
    (h : ∀ s ∈ ss, s.reading.status = .equate → symbol.index ≠ s.index) :
    (t.rewriteAll ss).lookup m = some symbol := by
  induction ss generalizing t with
  | nil => exact hsymbol
  | cons s rest ih =>
    rw [rewriteAll_cons]
    refine ih ?_ fun s' hs' => h s' (List.mem_cons_of_mem _ hs')
    rw [lookup_rewrite, hsymbol, Option.map_some, redefine_of_ne (h s (List.mem_cons_self ..))]

/-- **A symbol has the value that its own definition gives it**, whatever stands around that. -/
theorem lookup_rewriteAll_of_mem {t : SymbolTable} {ss : List Statement} {s : Statement} {m : Text}
    {symbol : Symbol} (hnodup : (ss.map (·.index)).Nodup) (hs : s ∈ ss)
    (hsymbol : t.lookup m = some symbol) (hindex : symbol.index = s.index) :
    (t.rewriteAll ss).lookup m = (t.rewrite s).lookup m := by
  obtain ⟨front, back, rfl⟩ := List.append_of_mem hs
  rw [List.map_append, List.map_cons] at hnodup
  have hfront : ∀ s' ∈ front, symbol.index ≠ s'.index := by
    intro s' hs' h
    refine (List.nodup_append.mp hnodup).2.2 _ (List.mem_map_of_mem hs') _
      (List.mem_cons_self ..) ?_
    exact Int.natCast_inj.mp (h.symm.trans hindex)
  have hback : ∀ s' ∈ back, symbol.index ≠ s'.index := by
    intro s' hs' h
    refine (List.nodup_cons.mp (List.nodup_append.mp hnodup).2.1).1 (List.mem_map.mpr ⟨s', hs', ?_⟩)
    exact Int.natCast_inj.mp (h.symm.trans hindex)
  -- the statements before and behind leave the symbol alone
  have hbefore := lookup_rewriteAll_of_ne hsymbol fun s' hs' _ => hfront s' hs'
  rw [lookup_rewrite, hsymbol, rewriteAll_append, rewriteAll_cons]
  refine lookup_rewriteAll_of_ne ?_ fun s' hs' _ => ?_
  · rw [lookup_rewrite, hbefore]
    rfl
  · rw [index_redefine]
    exact hback s' hs'

@[simp] theorem isSome_lookup_rewriteAll (t : SymbolTable) (ss : List Statement) (m : Text) :
    ((t.rewriteAll ss).lookup m).isSome = (t.lookup m).isSome := by
  have hlookup := congrArg Option.isSome (map_blank_lookup (map_blank_rewriteAll t ss) m)
  rw [Option.isSome_map, Option.isSome_map] at hlookup
  exact hlookup

/-- **Behind several definitions a name has its old value, or the value of one of them.** -/
theorem lookup_rewriteAll {t : SymbolTable} {ss : List Statement}
    (hnodup : (ss.map (·.index)).Nodup) (m : Text) :
    (t.rewriteAll ss).lookup m = t.lookup m ∨
      ∃ s ∈ ss, s.reading.status = .equate ∧
        (t.rewriteAll ss).lookup m = (t.rewrite s).lookup m := by
  cases hsymbol : t.lookup m with
  | none =>
    have hnone := isSome_lookup_rewriteAll t ss m
    rw [hsymbol] at hnone
    exact Or.inl (Option.not_isSome_iff_eq_none.mp (by rw [hnone]; exact nofun))
  | some symbol =>
    by_cases hown : ∃ s ∈ ss, s.reading.status = .equate ∧ symbol.index = s.index
    · obtain ⟨s, hs, hequate, hindex⟩ := hown
      exact Or.inr ⟨s, hs, hequate, lookup_rewriteAll_of_mem hnodup hs hsymbol hindex⟩
    · refine Or.inl (lookup_rewriteAll_of_ne hsymbol fun s hs hequate hindex => ?_)
      exact hown ⟨s, hs, hequate, hindex⟩

/-- Behind one of several definitions a name has its old value, or the value behind them all. -/
theorem lookup_rewrite_of_mem {t : SymbolTable} {ss : List Statement} {s : Statement}
    (hnodup : (ss.map (·.index)).Nodup) (hs : s ∈ ss) (m : Text) :
    (t.rewrite s).lookup m = t.lookup m ∨
      (t.rewrite s).lookup m = (t.rewriteAll ss).lookup m := by
  rw [lookup_rewrite t s m]
  cases hsymbol : t.lookup m with
  | none => exact Or.inl rfl
  | some symbol =>
    by_cases hindex : symbol.index = s.index
    · right
      rw [lookup_rewriteAll_of_mem hnodup hs hsymbol hindex, lookup_rewrite, hsymbol]
    · left
      rw [Option.map_some, redefine_of_ne fun _ => hindex]

theorem holds_rewriteAll {t : SymbolTable} {ss : List Statement} {name : Text} {v : Int}
    {symbol : Symbol} (hholds : t.Holds name v) (hsymbol : t.lookup name = some symbol)
    (h : ∀ s ∈ ss, symbol.index ≠ s.index) : (t.rewriteAll ss).Holds name v := by
  induction ss generalizing t with
  | nil => exact hholds
  | cons s rest ih =>
    rw [rewriteAll_cons]
    have hne := h s (List.mem_cons_self ..)
    have hlookup : (t.rewrite s).lookup name = some symbol := by
      rw [lookup_rewrite, hsymbol, Option.map_some, redefine_of_ne fun _ => hne]
    refine ih ?_ hlookup fun s' hs' => h s' (List.mem_cons_of_mem _ hs')
    rcases rewrite_cases t s with hsame | ⟨name', own, _, hown, hindex, _, hassign⟩
    · rw [hsame]
      exact hholds
    · rw [hassign]
      refine holds_assign_other hholds fun hname => hne ?_
      rw [lookup_congr t hname, hown] at hsymbol
      obtain rfl := Option.some.inj hsymbol
      exact hindex

/-- **What has been rewritten stays rewritten**: behind several statements at different positions,
the definition of any of them changes nothing more. -/
theorem rewrite_rewriteAll {t : SymbolTable} {ss : List Statement}
    (hnodup : (ss.map (·.index)).Nodup) :
    ∀ s ∈ ss, (t.rewriteAll ss).rewrite s = t.rewriteAll ss := by
  induction ss generalizing t with
  | nil => exact fun _ h => absurd h List.not_mem_nil
  | cons s rest ih =>
    rw [List.map_cons, List.nodup_cons] at hnodup
    intro s' hs'
    rcases List.mem_cons.mp hs' with rfl | hs'
    · rw [rewriteAll_cons]
      rcases rewrite_cases ((t.rewrite s').rewriteAll rest) s' with
        hsame | ⟨name, symbol, hlabel, hsymbol, hindex, hequate, hassign⟩
      · exact hsame
      · -- the symbol stands at the position of `s'`, so `s'` gave it the value just before
        rw [hassign]
        apply assign_eq_self
        have hblank : t.symbols.map Symbol.blank
            = ((t.rewrite s').rewriteAll rest).symbols.map Symbol.blank := by
          simp
        obtain ⟨own, hown, hblank'⟩ := index_eq_of_map_blank hblank hsymbol
        have hindex' : own.index = s'.index := by
          rw [← hindex]
          show own.blank.index = symbol.blank.index
          rw [hblank']
        have hrewrite : t.rewrite s' = t.assign name (word s'.reading.value) := by
          unfold rewrite
          simp only [hlabel, hown, if_pos (And.intro hindex' hequate)]
        rw [hrewrite]
        have hlookup : (t.assign name (word s'.reading.value)).lookup name
            = some { own with value := some (word s'.reading.value) } := by
          rw [lookup_assign_same t _ rfl, hown]
          rfl
        refine holds_rewriteAll (holds_assign t name _) hlookup fun s'' hs'' h => ?_
        refine hnodup.1 (List.mem_map.mpr ⟨s'', hs'', ?_⟩)
        exact Int.natCast_inj.mp (h.symm.trans hindex')
    · exact ih hnodup.2 s' hs'

end SymbolTable

namespace Coding

/-- **The table behind the coding pass** is the table before, rewritten by each statement. -/
theorem symbols_run (c : Context) (layout : List Nat) (ss : List Statement)
    (hbinds : ∀ st ∈ (run c layout ss).1, c.symbols.Binds st.statement) :
    (run c layout ss).2.symbols
      = c.symbols.rewriteAll ((run c layout ss).1.map (·.statement)) := by
  induction ss generalizing c layout with
  | nil => rfl
  | cons s rest ih =>
    cases hends : s.ends with
    | true =>
      rw [run_cons_of_ends c layout rest hends] at hbinds ⊢
      exact symbols_step layout.head? ((binds_step ..).mp (hbinds _ (List.mem_cons_self ..)))
    | false =>
      rw [run_cons c layout rest hends] at hbinds ⊢
      have hstep := symbols_step layout.head?
        ((binds_step ..).mp (hbinds _ (List.mem_cons_self ..)))
      rw [List.map_cons, SymbolTable.rewriteAll_cons, ← hstep]
      refine ih _ _ fun st hst => ?_
      rw [hstep]
      exact SymbolTable.binds_of_map_blank (SymbolTable.map_blank_rewrite _ _)
        (hbinds st (List.mem_cons_of_mem _ hst))

end Coding

/-! ### Whole programs -/

/-- Statements have different positions. -/
theorem Statement.nodup_index_ofSource (lines : List Text) :
    ((Statement.ofSource lines).map (·.index)).Nodup := by
  unfold Statement.ofSource
  rw [List.map_map]
  exact (List.zipIdx_map_snd ..) ▸ List.nodup_range'

theorem Statement.nodup_index_reach (lines : List Text) :
    ((reach (Statement.ofSource lines)).map (·.index)).Nodup :=
  ((prefix_reach _).sublist.map _).nodup (nodup_index_ofSource lines)

theorem Coding.nodup_index_run (c : Context) (layout : List Nat) (lines : List Text) :
    (((run c layout (Statement.ofSource lines)).1.map (·.statement)).map (·.index)).Nodup := by
  have hindex := congrArg (List.map (·.index)) (unread_run c layout (Statement.ofSource lines))
  rw [List.map_map, List.map_map] at hindex
  rw [List.map_map]
  exact hindex ▸ Statement.nodup_index_reach lines

/-- Every symbol was defined before the program. -/
def SymbolTable.Predefined (t : SymbolTable) : Prop :=
  ∀ symbol ∈ t.symbols, symbol.index = predefinedIndex

/-- A name that is not in the table can be defined before the program. -/
theorem Assembly.define_of_new {a : Assembly} {name : Text}
    (h : a.context.symbols.lookup name = none) (value : Option Int) :
    a.define name value = .ok { a with context := { a.context with
      symbols := a.context.symbols.insert
        (SymbolTable.newSymbol name value predefinedIndex none) } } := by
  unfold Assembly.define SymbolTable.define
  rw [h]

/-- **What every definition keeps, the predefined symbols have**, if the empty table has it. -/
theorem Assembler.seed_induction {P : SymbolTable → Prop} (s : Assembler) (hempty : P {})
    (hdefine : ∀ t name v, P t → t.lookup name = none →
      P (t.insert (SymbolTable.newSymbol name (some v) predefinedIndex none))) :
    P s.seed.context.symbols := by
  have hstep : ∀ (a : Assembly) (name : Text) (v : Int), P a.context.symbols →
      P ((a.define name (some v)).toOption.getD a).context.symbols := by
    intro a name v ha
    cases hlookup : a.context.symbols.lookup name with
    | some first =>
      unfold Assembly.define SymbolTable.define
      rw [hlookup]
      exact ha
    | none =>
      rw [Assembly.define_of_new hlookup]
      exact hdefine _ name v ha hlookup
  unfold Assembler.seed
  have hstart : P ({} : Assembly).context.symbols := hempty
  generalize ({} : Assembly) = a at hstart
  induction s.defines generalizing a with
  | nil => exact hstart
  | cons entry rest ih => exact ih _ (hstep a entry.1 entry.2 hstart)

theorem Assembler.predefined_seed (s : Assembler) : s.seed.context.symbols.Predefined := by
  refine s.seed_induction (fun _ h => absurd h List.not_mem_nil)
    fun t name v ht _ symbol hsymbol => ?_
  rcases List.mem_append.mp hsymbol with hsymbol | hsymbol
  · exact ht symbol hsymbol
  · rw [List.mem_singleton.mp hsymbol]
    rfl

namespace Assembly

theorem nodup_index_layoutRun (a : Assembly) (lines : List Text) :
    ((a.load lines).layoutRun.1.map (·.statement.index)).Nodup := by
  have hindex := congrArg (List.map (·.index))
    (Layout.unread_run ((a.load lines).context.reset .first) (a.load lines).statements)
  rw [List.map_map, List.map_map] at hindex
  exact hindex ▸ Statement.nodup_index_reach _

theorem nodup_index_codeRun (a : Assembly) (lines : List Text) :
    (((a.load lines).layout.codeRun.1.map (·.statement)).map (·.index)).Nodup := by
  rw [codeRun_layout]
  exact Coding.nodup_index_run ..

/-- A symbol behind the layout that has the position of a step was defined by that step. -/
theorem defines_of_index {s : Assembler} {lines : List Text} {st : Layout.Step} {name : Text}
    {symbol : Symbol} (hst : st ∈ (s.seed.load lines).layoutRun.1)
    (hsymbol : (s.seed.load lines).layout.context.symbols.lookup name = some symbol)
    (hindex : symbol.index = st.statement.index) : st.Defines name symbol := by
  rcases Layout.lookup_run _ _ hsymbol with ⟨old, hold, hold', _⟩ | ⟨st', hst', hdefines⟩
  · -- a predefined symbol has a position that no statement has
    have hpredefined := s.predefined_seed old (List.mem_of_find?_eq_some hold)
    rw [hold', hpredefined] at hindex
    cases hindex
  · have hsame : st' = st := by
      refine List.inj_on_of_nodup_map (nodup_index_layoutRun s.seed lines) hst' hst ?_
      exact Int.natCast_inj.mp (hdefines.index.symm.trans hindex)
    exact hsame ▸ hdefines

theorem unread_passes (a : Assembly) :
    ∀ p ∈ a.passes, p.2.statement.unread = p.1.statement.unread := by
  intro p hp
  obtain ⟨c₁, c₂, s, rfl, _⟩ := exists_of_mem_passes hp
  exact Coding.unread_step ..

/-- Behind a layout, the labels of all statements that a coding pass reaches are in the table. -/
theorem binds_run (a : Assembly) (c : Context) (layout : List Nat) :
    ∀ st ∈ (Coding.run c layout a.statements).1, a.layout.context.symbols.Binds st.statement := by
  have hunread : (a.layoutRun.1.map (·.statement)).map Statement.unread
      = ((Coding.run c layout a.statements).1.map (·.statement)).map Statement.unread := by
    rw [List.map_map, List.map_map]
    exact (Layout.unread_run _ a.statements).trans (Coding.unread_run c layout a.statements).symm
  have hbinds := SymbolTable.binds_of_unread hunread
    (List.forall_mem_map.mpr (Layout.binds_run (a.context.reset .first) a.statements))
  exact fun st hst => hbinds st.statement (List.mem_map_of_mem hst)

theorem binds_codeRun (a : Assembly) :
    ∀ st ∈ a.layout.codeRun.1, a.layout.context.symbols.Binds st.statement := by
  rw [codeRun_layout]
  exact a.binds_run _ _

/-- The table behind both passes is that of the layout, rewritten by every statement. -/
theorem symbols_code (a : Assembly) :
    a.layout.code.context.symbols
      = a.layout.context.symbols.rewriteAll (a.layout.codeRun.1.map (·.statement)) := by
  show a.layout.codeRun.2.symbols = _
  rw [codeRun_layout]
  exact Coding.symbols_run _ _ _ (a.binds_run _ _)

/-- The labels of all statements that a coding pass reaches are in the table behind it. -/
theorem binds_code (a : Assembly) (c : Context) (layout : List Nat) :
    ∀ st ∈ (Coding.run c layout a.statements).1,
      a.layout.code.context.symbols.Binds st.statement := by
  intro st hst
  rw [symbols_code]
  exact SymbolTable.binds_of_map_blank (SymbolTable.map_blank_rewriteAll _ _)
    (a.binds_run c layout st hst)

/-- The table behind another coding pass is the table before it, rewritten by every statement. -/
theorem symbols_code_code (a : Assembly) :
    a.layout.code.code.context.symbols
      = a.layout.code.context.symbols.rewriteAll (a.layout.code.codeRun.1.map (·.statement)) := by
  show a.layout.code.codeRun.2.symbols = _
  rw [codeRun_code_layout]
  exact Coding.symbols_run _ _ _ (a.binds_code _ _)

end Assembly

end Cosmac
