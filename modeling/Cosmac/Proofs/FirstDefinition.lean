import Cosmac.Proofs.Range
import Mathlib.Data.List.Nodup

/-!
# The first definition wins

A program defines symbols in three ways: before it starts, by labels and by equates.  The passes
build the table step by step and look names up by position.  What comes of it can be said at once:
the definitions in a row, of which the table keeps the first for each name (`Symbol.collect`).

* `Layout.symbols_run`, `Assembler.symbols_seed`: the layout and the predefined symbols collect
  their definitions, one by one (`SymbolTable.bind_collect`);
* `Assembly.symbols_generate`: generating code changes values only, and of each symbol to the value
  that its first definition has by then (`Passes.finalValue`);
* `Coding.redefinitions_run`, `Assembly.length_redefinitions`: a second definition is reported.

A table is determined by its names in order and by what is found under each
(`SymbolTable.eq_collect`), so all of this is proved about lookups.
-/

namespace Cosmac

/-! ### Tables as lists of definitions -/

theorem nodup_eraseDups (ns : List Text) : ns.eraseDups.Nodup := by
  cases ns with
  | nil => exact List.nodup_nil
  | cons n rest =>
    rw [List.eraseDups_cons, List.nodup_cons]
    refine ⟨fun hn => ?_, nodup_eraseDups _⟩
    -- the name has been taken out of what follows it
    have hkept := (List.mem_filter.mp (List.mem_eraseDups.mp hn)).2
    simp at hkept
termination_by ns.length
decreasing_by
  have hle := List.length_filter_le (fun m => !m == n) rest
  rw [List.length_cons]
  omega

namespace Symbol

/-- The first definition of a name, marked if there are others. -/
def first (ds : List Symbol) (n : Text) : Option Symbol :=
  (ds.find? (·.name == n)).map fun d =>
    { d with duplicate := decide (1 < (ds.map (·.name)).count n) }

/-- The names of the definitions in the order in which they occur first, each with its first
definition. -/
def collect (ds : List Symbol) : List Symbol :=
  (ds.map (·.name)).eraseDups.filterMap (first ds)

variable {ds : List Symbol} {d : Symbol} {n : Text}

theorem name_of_first (h : first ds n = some d) : d.name = n := by
  obtain ⟨d', hd', rfl⟩ := Option.map_eq_some_iff.mp h
  have hname := List.find?_some hd'
  exact beq_iff_eq.mp hname

theorem isSome_first : (first ds n).isSome = true ↔ n ∈ ds.map (·.name) := by
  unfold first
  rw [Option.isSome_map, List.find?_isSome, List.mem_map]
  simp only [beq_iff_eq]

@[simp] theorem map_name_collect (ds : List Symbol) :
    (collect ds).map (·.name) = (ds.map (·.name)).eraseDups := by
  unfold collect
  rw [List.map_filterMap]
  refine (List.filterMap_congr fun n hn => ?_).trans List.filterMap_some
  obtain ⟨d, hd⟩ := Option.isSome_iff_exists.mp (isSome_first.mpr (List.mem_eraseDups.mp hn))
  rw [hd]
  exact congrArg some (name_of_first hd)

@[simp] theorem find?_collect (ds : List Symbol) (n : Text) :
    (collect ds).find? (·.name == n) = first ds n := by
  -- a definition that is kept under a name has that name, so `n` is found under `n` alone
  have hname : ∀ m, (first ds m).any (fun d => d.name == n) = true ↔
      m = n ∧ (first ds n).isSome = true := by
    intro m
    cases hm : first ds m with
    | none =>
      refine ⟨nofun, fun h => ?_⟩
      rw [← h.1, hm] at h
      cases h.2
    | some d =>
      rw [Option.any_some, beq_iff_eq, name_of_first hm]
      refine ⟨fun h => ⟨h, ?_⟩, fun h => h.1⟩
      rw [← h, hm]
      rfl
  unfold collect
  rw [List.find?_filterMap]
  cases hfirst : first ds n with
  | none =>
    rw [List.find?_eq_none.mpr fun m _ hm => ?_]
    · rfl
    · rw [hname, hfirst] at hm
      cases hm.2
  | some d =>
    have hmem : n ∈ (ds.map (·.name)).eraseDups :=
      List.mem_eraseDups.mpr (isSome_first.mp (by rw [hfirst]; rfl))
    have hfound : ((ds.map (·.name)).eraseDups.find? fun m =>
        (first ds m).any (fun d => d.name == n)).isSome = true :=
      List.find?_isSome.mpr ⟨n, hmem, (hname n).mpr ⟨rfl, by rw [hfirst]; rfl⟩⟩
    obtain ⟨m, hm⟩ := Option.isSome_iff_exists.mp hfound
    have hany := List.find?_some hm
    obtain ⟨rfl, _⟩ := (hname m).mp hany
    rw [hm]
    exact hfirst

/-! ### One more definition -/

theorem first_append_of_ne (h : d.name ≠ n) : first (ds ++ [d]) n = first ds n := by
  unfold first
  rw [List.find?_append, List.map_append, List.count_append]
  simp [h]

theorem first_append_of_some {old : Symbol} (h : first ds d.name = some old) :
    first (ds ++ [d]) d.name = some { old with duplicate := true } := by
  obtain ⟨d', hd', rfl⟩ := Option.map_eq_some_iff.mp h
  have hcount : 0 < (ds.map (·.name)).count d.name :=
    List.count_pos_iff.mpr (isSome_first.mp (by rw [h]; rfl))
  unfold first
  rw [List.find?_append, hd', List.map_append, List.count_append]
  simp [hcount]

theorem first_append_of_none (h : first ds d.name = none) :
    first (ds ++ [d]) d.name = some { d with duplicate := false } := by
  have hcount : (ds.map (·.name)).count d.name = 0 := by
    rw [List.count_eq_zero, ← isSome_first, h]
    exact nofun
  unfold first
  rw [List.find?_append, Option.map_eq_none_iff.mp h, List.map_append, List.count_append, hcount]
  simp

theorem eq_of_find? {l l' : List Symbol} (hnames : l.map (·.name) = l'.map (·.name))
    (hnodup : (l.map (·.name)).Nodup)
    (hfind : ∀ n ∈ l.map (·.name), l.find? (·.name == n) = l'.find? (·.name == n)) : l = l' := by
  induction l generalizing l' with
  | nil => exact (List.map_eq_nil_iff.mp hnames.symm).symm
  | cons d rest ih =>
    obtain ⟨d', rest', rfl, hname, hrest⟩ := List.map_eq_cons_iff.mp hnames.symm
    rw [List.map_cons, List.nodup_cons] at hnodup
    have hhead := hfind d.name (List.mem_cons_self ..)
    rw [List.find?_cons_of_pos (by simp), List.find?_cons_of_pos (by simp [hname])] at hhead
    obtain rfl := Option.some.inj hhead
    congr 1
    -- the name of the first symbol does not come again, so the search goes past it
    refine ih hrest.symm hnodup.2 fun n hn => ?_
    have hne : d.name ≠ n := fun h => hnodup.1 (h ▸ hn)
    have htail := hfind n (List.mem_cons_of_mem _ hn)
    rwa [List.find?_cons_of_neg (by simp [hne]), List.find?_cons_of_neg (by simp [hne])] at htail

end Symbol

namespace SymbolTable

open Cosmac.Symbol

variable {ds : List Symbol}

@[simp] theorem lookup_collect (ds : List Symbol) (m : Text) :
    (⟨collect ds⟩ : SymbolTable).lookup m = first ds (Text.upper m) :=
  find?_collect ds _

/-- **A table is the collection of the definitions** if it has their names in order and finds the
first definition of each. -/
theorem eq_collect {t : SymbolTable} (hupper : ∀ d ∈ ds, Text.upper d.name = d.name)
    (hnames : t.symbols.map (·.name) = (ds.map (·.name)).eraseDups)
    (hlookup : ∀ m, t.lookup m = first ds (Text.upper m)) : t = ⟨collect ds⟩ := by
  obtain ⟨symbols⟩ := t
  congr 1
  refine eq_of_find? (hnames.trans (map_name_collect ds).symm)
    (hnames ▸ nodup_eraseDups _) fun n hn => ?_
  rw [hnames, List.mem_eraseDups] at hn
  obtain ⟨d, hd, rfl⟩ := List.mem_map.mp hn
  have hfound := hlookup d.name
  rw [← lookup_collect] at hfound
  unfold lookup at hfound
  rwa [hupper d hd] at hfound

theorem map_name_modify {t : SymbolTable} {name : Text} {f : Symbol → Symbol}
    (hf : ∀ s, (f s).name = s.name) :
    (t.modify name f).symbols.map (·.name) = t.symbols.map (·.name) := by
  unfold modify
  rw [List.map_map]
  refine List.map_congr_left fun s _ => ?_
  show (if s.name == Text.upper name then f s else s).name = s.name
  split
  · exact hf s
  · rfl

theorem map_name_bind (name : Text) (value : Option Int) (index : Int) (line : Option Int) :
    ((⟨collect ds⟩ : SymbolTable).bind name value index line).symbols.map (·.name)
      = ((ds ++ [newSymbol name value index line]).map (·.name)).eraseDups := by
  rw [List.map_append, List.eraseDups_append, ← map_name_collect]
  show _ = _ ++ ([Text.upper name].removeAll _).eraseDups
  unfold bind
  cases hold : (⟨collect ds⟩ : SymbolTable).lookup name with
  | some old =>
    rw [lookup_collect] at hold
    have hmem : Text.upper name ∈ ds.map (·.name) := isSome_first.mp (by rw [hold]; rfl)
    have hremove : [Text.upper name].removeAll (ds.map (·.name)) = [] := by
      simp only [List.removeAll, List.filter_cons, List.elem_eq_mem, hmem]
      rfl
    rw [hremove, List.eraseDups_nil, List.append_nil]
    exact map_name_modify (f := fun s => { s with duplicate := true }) fun _ => rfl
  | none =>
    rw [lookup_collect] at hold
    have hmem : Text.upper name ∉ ds.map (·.name) := by
      rw [← isSome_first, hold]
      exact nofun
    have hremove : [Text.upper name].removeAll (ds.map (·.name)) = [Text.upper name] := by
      simp only [List.removeAll, List.filter_cons, List.elem_eq_mem, hmem]
      rfl
    rw [hremove]
    exact List.map_append

/-- **A definition in a program is one more definition.** -/
theorem bind_collect (hupper : ∀ d ∈ ds, Text.upper d.name = d.name) (name : Text)
    (value : Option Int) (index : Int) (line : Option Int) :
    (⟨collect ds⟩ : SymbolTable).bind name value index line
      = ⟨collect (ds ++ [newSymbol name value index line])⟩ := by
  refine eq_collect ?_ (map_name_bind name value index line) fun m => ?_
  · exact List.forall_mem_append.mpr
      ⟨hupper, List.forall_mem_singleton.mpr (Text.upper_upper name)⟩
  · by_cases hname : Text.upper m = Text.upper name
    · cases hold : (⟨collect ds⟩ : SymbolTable).lookup name with
      | some old =>
        rw [lookup_bind_of_some hold hname, hname]
        rw [lookup_collect] at hold
        exact (first_append_of_some hold).symm
      | none =>
        rw [lookup_bind_of_none hold hname, hname]
        rw [lookup_collect] at hold
        exact (first_append_of_none (d := newSymbol name value index line) hold).symm
    · rw [lookup_bind_other hname, lookup_collect]
      exact (first_append_of_ne (Ne.symm hname)).symm

end SymbolTable

/-! ### The layout -/

open Cosmac.Symbol

/-- The symbol that a step defines, with the value that it has in the layout. -/
def Layout.Step.definition? (st : Layout.Step) : Option Symbol :=
  st.statement.reading.label.map fun name =>
    SymbolTable.newSymbol name (st.before.definedValue st.statement) st.statement.index
      (some st.statement.line)

theorem Layout.upper_definition {st : Layout.Step} {d : Symbol} (h : d ∈ st.definition?) :
    Text.upper d.name = d.name := by
  obtain ⟨name, _, rfl⟩ := Option.map_eq_some_iff.mp h
  exact Text.upper_upper name

theorem Layout.symbols_bindLabel {c : Context} {ds : List Symbol}
    (hupper : ∀ d ∈ ds, Text.upper d.name = d.name) (hc : c.symbols = ⟨collect ds⟩)
    (s : Statement) :
    (c.bindLabel s).symbols = ⟨collect (ds ++ (Step.definition? ⟨c, s⟩).toList)⟩ := by
  unfold Context.bindLabel Step.definition?
  cases s.reading.label with
  | none =>
    show c.symbols = ⟨collect (ds ++ [])⟩
    rw [List.append_nil, hc]
  | some name =>
    show c.symbols.bind name (c.definedValue s) s.index (some s.line) = _
    rw [hc]
    exact SymbolTable.bind_collect hupper name _ _ _

/-- **Behind the layout the table holds the first definition of every name.** -/
theorem Layout.symbols_run {c : Context} {ds : List Symbol}
    (hupper : ∀ d ∈ ds, Text.upper d.name = d.name) (hc : c.symbols = ⟨collect ds⟩)
    (ss : List Statement) :
    (run c ss).2.symbols = ⟨collect (ds ++ (run c ss).1.filterMap Step.definition?)⟩ := by
  induction ss generalizing c ds with
  | nil =>
    show c.symbols = ⟨collect (ds ++ [])⟩
    rw [List.append_nil, hc]
  | cons s rest ih =>
    have hbound := symbols_bindLabel hupper hc (s.parse c)
    have hcons : ∀ steps : List Step, ds ++ (⟨c, s.parse c⟩ :: steps).filterMap Step.definition?
        = ds ++ (Step.definition? ⟨c, s.parse c⟩).toList ++ steps.filterMap Step.definition? := by
      intro steps
      rw [List.filterMap_cons, List.append_assoc]
      cases Step.definition? ⟨c, s.parse c⟩ <;> rfl
    cases hends : s.ends with
    | true =>
      rw [run_cons_of_ends c rest hends, hcons, List.filterMap_nil, List.append_nil]
      exact hbound
    | false =>
      rw [run_cons c rest hends, hcons]
      refine ih (List.forall_mem_append.mpr ⟨hupper, fun d hd => ?_⟩)
        (by rw [symbols_next]; exact hbound)
      exact upper_definition (Option.mem_toList.mp hd)

/-! ### Predefined symbols -/

/-- The symbol of a definition before the program. -/
def Symbol.predefine (entry : Text × Int) : Symbol :=
  SymbolTable.newSymbol entry.1 (some entry.2) predefinedIndex none

theorem Assembly.symbols_define {a : Assembly} {ds : List Symbol}
    (hupper : ∀ d ∈ ds, Text.upper d.name = d.name) (ha : a.context.symbols = ⟨collect ds⟩)
    {name : Text} (hnew : Text.upper name ∉ ds.map (·.name)) (v : Int) :
    ((a.define name (some v)).toOption.getD a).context.symbols
      = ⟨collect (ds ++ [Symbol.predefine (name, v)])⟩ := by
  have hnone : a.context.symbols.lookup name = none := by
    rw [ha, SymbolTable.lookup_collect, ← Option.not_isSome_iff_eq_none, isSome_first]
    exact hnew
  have hbind := SymbolTable.bind_collect hupper name (some v) predefinedIndex none
  unfold SymbolTable.bind at hbind
  rw [← ha, hnone] at hbind
  rw [define_of_new hnone]
  exact hbind

theorem Assembly.symbols_foldl_define {a : Assembly} {ds : List Symbol}
    (hupper : ∀ d ∈ ds, Text.upper d.name = d.name) (ha : a.context.symbols = ⟨collect ds⟩)
    {entries : List (Text × Int)}
    (hnodup : ((ds ++ entries.map Symbol.predefine).map (·.name)).Nodup) :
    (entries.foldl (fun assembly entry =>
        (assembly.define entry.1 (some entry.2)).toOption.getD assembly) a).context.symbols
      = ⟨collect (ds ++ entries.map Symbol.predefine)⟩ := by
  induction entries generalizing a ds with
  | nil =>
    rw [List.map_nil, List.append_nil]
    exact ha
  | cons entry rest ih =>
    rw [List.map_cons, List.append_cons] at hnodup ⊢
    have hnew : Text.upper entry.1 ∉ ds.map (·.name) := by
      rw [List.map_append, List.map_append] at hnodup
      have hfront := (List.nodup_append.mp hnodup).1
      exact fun hmem => (List.nodup_append.mp hfront).2.2 _ hmem _ (List.mem_singleton_self _) rfl
    have hupper' : ∀ d ∈ ds ++ [Symbol.predefine entry], Text.upper d.name = d.name :=
      List.forall_mem_append.mpr ⟨hupper, List.forall_mem_singleton.mpr (Text.upper_upper entry.1)⟩
    exact ih hupper' (symbols_define hupper ha hnew entry.2) hnodup

namespace Assembler

/-- The symbols that are defined before the program. -/
def predefined (s : Assembler) : List Symbol := s.defines.map Symbol.predefine

variable {s : Assembler}

theorem upper_predefined : ∀ d ∈ s.predefined, Text.upper d.name = d.name := by
  intro d hd
  obtain ⟨entry, _, rfl⟩ := List.mem_map.mp hd
  exact Text.upper_upper entry.1

theorem index_predefined : ∀ d ∈ s.predefined, d.index = predefinedIndex := by
  intro d hd
  obtain ⟨entry, _, rfl⟩ := List.mem_map.mp hd
  rfl

/-- **Symbols with different names are all defined before the program.** -/
theorem symbols_seed (hdistinct : (s.predefined.map (·.name)).Nodup) :
    s.seed.context.symbols = ⟨collect s.predefined⟩ :=
  Assembly.symbols_foldl_define (List.forall_mem_nil _) rfl hdistinct

end Assembler

/-! ### Both passes -/

namespace Passes

/-- The value of the symbol that a statement defines, behind both passes: for a label the location
counter of the layout, for an equate its value when code is generated, or the value that it had in
the layout if it is in error by then. -/
def finalValue (p : Pair) : Option Int :=
  if p.2.statement.reading.equate = false then some p.1.before.pc
  else if p.2.statement.reading.status.error?.isSome then p.1.before.definedValue p.1.statement
  else some p.2.statement.reading.value

/-- The symbol that a statement defines, with this value. -/
def define? (p : Pair) (value : Option Int) : Option Symbol :=
  p.2.statement.reading.label.map fun name =>
    { name := Text.upper name, value
      index := p.2.statement.index, line := some p.2.statement.line }

/-- The symbol that a statement defines, with the value that it has in the layout. -/
def initial? (p : Pair) : Option Symbol :=
  define? p (p.1.before.definedValue p.1.statement)

/-- The symbol that a statement defines, with the value that it has behind both passes. -/
def definition? (p : Pair) : Option Symbol := define? p (finalValue p)

/-- The names that statements define do not depend on the values. -/
theorem map_name_initial (ps : List Pair) :
    (ps.filterMap initial?).map (·.name) = (ps.filterMap definition?).map (·.name) := by
  rw [List.map_filterMap, List.map_filterMap]
  refine List.filterMap_congr fun p _ => ?_
  unfold initial? definition? define?
  rw [Option.map_map, Option.map_map]
  rfl

theorem any_initial (p : Pair) (n : Text) : (initial? p).any (fun d => d.name == n)
    = p.2.statement.reading.label.any fun name => Text.upper name == n := by
  unfold initial? define?
  rw [Option.any_map]

theorem any_definition (p : Pair) (n : Text) : (definition? p).any (fun d => d.name == n)
    = p.2.statement.reading.label.any fun name => Text.upper name == n := by
  unfold definition? define?
  rw [Option.any_map]

variable {p : Pair} {name : Text} (hname : p.2.statement.reading.label = some name)

include hname

theorem initial_eq : initial? p = some ⟨Text.upper name, p.1.before.definedValue p.1.statement,
    false, p.2.statement.index, some p.2.statement.line⟩ := by
  unfold initial? define?
  rw [hname]
  rfl

theorem definition_eq : definition? p = some ⟨Text.upper name, finalValue p, false,
    p.2.statement.index, some p.2.statement.line⟩ := by
  unfold definition? define?
  rw [hname]
  rfl

end Passes

namespace Assembly

variable {a : Assembly} {p : Passes.Pair}

/-- In the layout a statement defines the same symbol, perhaps with another value. -/
theorem definition_layout (hp : p ∈ a.passes) :
    p.1.definition? = Passes.define? p ((p.1.before.definedValue p.1.statement).map word) := by
  have hindex := congrArg Statement.index (unread_passes a p hp)
  have hline := congrArg Statement.line (unread_passes a p hp)
  have hlabel : p.2.statement.reading.label = p.1.statement.reading.label := by
    obtain ⟨c₁, c₂, st, rfl, _⟩ := exists_of_mem_passes hp
    exact (Coding.label_step ..).trans (st.label_parse c₁).symm
  dsimp only [Statement.unread] at hindex hline
  unfold Layout.Step.definition? Passes.define? SymbolTable.newSymbol
  rw [hindex, hline, hlabel]

theorem equate_of_status (hp : p ∈ a.passes) (h : p.2.statement.reading.status = .equate) :
    p.2.statement.reading.equate = true := by
  obtain ⟨c₁, c₂, st, rfl, _⟩ := exists_of_mem_passes hp
  refine (Coding.equate_step ..).trans (st.isEquate_of_status_parse c₂ ?_)
  exact (Coding.status_step_eq_iff c₂ _ st rfl).mp h

/-- **The value of a definition that is not rewritten** is the one that it has in the layout. -/
theorem finalValue_of_ne (hp : p ∈ a.passes) (h : p.2.statement.reading.status ≠ .equate) :
    Passes.finalValue p = p.1.before.definedValue p.1.statement := by
  obtain ⟨c₁, c₂, st, rfl, _⟩ := exists_of_mem_passes hp
  have hequate : (Passes.pair c₁ c₂ st).2.statement.reading.equate = st.shape.operation.isEquate :=
    Coding.equate_step ..
  unfold Passes.finalValue
  cases hop : st.shape.operation.isEquate with
  | false =>
    rw [if_pos (hequate.trans hop)]
    show some c₁.pc = c₁.definedValue (st.parse c₁)
    unfold Context.definedValue
    rw [st.equate_parse c₁, hop]
    rfl
  | true =>
    -- an equate that is not one any more is in error
    have hfailed : (Passes.pair c₁ c₂ st).2.statement.reading.status.error?.isSome = true := by
      have hne : (st.parse c₂).reading.status ≠ .equate :=
        fun heq => h ((Coding.status_step_eq_iff c₂ _ st rfl).mpr heq)
      refine (Coding.isSome_error_step c₂ _ st).trans ?_
      rcases st.status_parse c₂ with hstatus | ⟨d, hstatus⟩
      · refine absurd (hstatus.trans ?_) hne
        cases hshape : st.shape.operation with
        | equate => rfl
        | _ =>
          rw [hshape] at hop
          cases hop
      · rw [hstatus]
        rfl
    rw [if_neg (by rw [hequate, hop]; exact nofun), if_pos hfailed]

end Assembly

/-! ### The table behind both passes -/

/-- All definitions of a program, with the values that they have behind both passes. -/
def Assembler.definitions (s : Assembler) (lines : List Text) : List Symbol :=
  s.predefined ++ (s.seed.load lines).passes.filterMap Passes.definition?

namespace Assembly

section Table

variable {s : Assembler} {lines : List Text} (hdistinct : (s.predefined.map (·.name)).Nodup)

theorem word_definedValue : ∀ p ∈ (s.seed.load lines).passes,
    (p.1.before.definedValue p.1.statement).map word = p.1.before.definedValue p.1.statement := by
  intro p hp
  obtain ⟨hpc, hvalue, _⟩ := isWord_passes s lines p hp
  unfold Context.definedValue
  split_ifs
  · rfl
  · exact congrArg some (isWord_iff.mp hvalue)
  · exact congrArg some (isWord_iff.mp hpc)

/-- All definitions of a program, with the values that they have in the layout. -/
def layoutDefinitions (s : Assembler) (lines : List Text) : List Symbol :=
  s.predefined ++ (s.seed.load lines).passes.filterMap Passes.initial?

@[simp] theorem map_name_layoutDefinitions (s : Assembler) (lines : List Text) :
    (layoutDefinitions s lines).map (·.name) = (s.definitions lines).map (·.name) := by
  unfold layoutDefinitions Assembler.definitions
  rw [List.map_append, List.map_append, Passes.map_name_initial]

/-- **Generating code gives a definition its value behind both passes.** -/
theorem redefine_layout {p : Passes.Pair} (hp : p ∈ (s.seed.load lines).passes) {name m : Text}
    (hname : p.2.statement.reading.label = some name) (hupper : Text.upper name = Text.upper m)
    {marked : Bool} :
    SymbolTable.redefine p.2.statement m
        ⟨Text.upper name, p.1.before.definedValue p.1.statement, marked, p.2.statement.index,
          some p.2.statement.line⟩
      = ⟨Text.upper name, Passes.finalValue p, marked, p.2.statement.index,
          some p.2.statement.line⟩ := by
  unfold SymbolTable.redefine
  by_cases hstatus : p.2.statement.reading.status = .equate
  · have hword := isWord_iff.mp (isWord_passes s lines p hp).2.2
    have hequate := equate_of_status hp hstatus
    rw [if_pos ⟨hstatus, rfl, by rw [hname, Option.map_some, hupper]⟩, hword]
    unfold Passes.finalValue
    rw [hequate, hstatus]
    rfl
  · rw [if_neg fun h => hstatus h.1, finalValue_of_ne hp hstatus]

/-- The layout adds the definitions of the program to those that the predefined symbols collect. -/
theorem symbols_layout_of_collect {ds : List Symbol}
    (hupper : ∀ d ∈ ds, Text.upper d.name = d.name)
    (hseed : s.seed.context.symbols = ⟨collect ds⟩) :
    (s.seed.load lines).layout.context.symbols
      = ⟨collect (ds ++ (s.seed.load lines).passes.filterMap Passes.initial?)⟩ := by
  have hrun := Layout.symbols_run (c := (s.seed.load lines).context.reset .first) hupper hseed
    (s.seed.load lines).statements
  refine hrun.trans ?_
  show SymbolTable.mk (collect (_ ++ (s.seed.load lines).layoutRun.1.filterMap _)) = _
  rw [← map_fst_passes, List.filterMap_map]
  congr 3
  refine List.filterMap_congr fun p hp => ?_
  show p.1.definition? = Passes.define? p _
  rw [definition_layout hp, word_definedValue p hp]

include hdistinct

theorem symbols_layout : (s.seed.load lines).layout.context.symbols
    = ⟨collect (layoutDefinitions s lines)⟩ :=
  symbols_layout_of_collect Assembler.upper_predefined (Assembler.symbols_seed hdistinct)

/-- **What is found behind both passes** is the first definition of the name. -/
theorem lookup_generate (m : Text) : (s.seed.generate lines).context.symbols.lookup m
    = first (s.definitions lines) (Text.upper m) := by
  have hlookup : (s.seed.load lines).layout.context.symbols.lookup m
      = first (layoutDefinitions s lines) (Text.upper m) := by
    rw [symbols_layout hdistinct]
    exact SymbolTable.lookup_collect _ m
  show (s.seed.load lines).layout.code.context.symbols.lookup m = _
  rw [symbols_code]
  unfold first at hlookup ⊢
  rw [map_name_layoutDefinitions] at hlookup
  generalize decide (1 < ((s.definitions lines).map (·.name)).count (Text.upper m)) = marked
    at hlookup ⊢
  unfold layoutDefinitions at hlookup
  unfold Assembler.definitions
  rw [List.find?_append] at hlookup ⊢
  cases hpredefined : s.predefined.find? (·.name == Text.upper m) with
  | some d =>
    -- no statement has the position of a predefined symbol
    rw [hpredefined] at hlookup
    refine SymbolTable.lookup_rewriteAll_of_ne hlookup fun s' _ _ hindex => ?_
    have hd : d.index = predefinedIndex :=
      Assembler.index_predefined d (List.mem_of_find?_eq_some hpredefined)
    dsimp only at hindex
    rw [hd] at hindex
    cases hindex
  | none =>
    rw [hpredefined, Option.none_or, List.find?_filterMap] at hlookup
    rw [Option.none_or, List.find?_filterMap]
    simp only [Passes.any_initial, Passes.any_definition] at hlookup ⊢
    cases hfind : (s.seed.load lines).passes.find? fun p =>
        p.2.statement.reading.label.any fun name => Text.upper name == Text.upper m with
    | none =>
      -- values are rewritten, and no name is added
      rw [hfind] at hlookup
      have hnone := SymbolTable.isSome_lookup_rewriteAll (s.seed.load lines).layout.context.symbols
        ((s.seed.load lines).layout.codeRun.1.map (·.statement)) m
      rw [hlookup] at hnone
      refine Option.not_isSome_iff_eq_none.mp ?_
      rw [hnone]
      exact Bool.false_ne_true
    | some p =>
      -- positions are distinct, so this statement alone rewrites the value
      have hp := List.mem_of_find?_eq_some hfind
      have hany := List.find?_some hfind
      obtain ⟨name, hname, hupper⟩ := (Option.any_eq_true _ _).mp hany
      rw [hfind, Option.bind_some, Passes.initial_eq hname, Option.map_some] at hlookup
      rw [Option.bind_some, Passes.definition_eq hname, Option.map_some]
      rw [SymbolTable.lookup_rewriteAll_of_mem (nodup_index_codeRun s.seed lines)
        (List.mem_map_of_mem (snd_mem_of_mem_passes hp)) hlookup rfl, SymbolTable.lookup_rewrite,
        hlookup, Option.map_some, redefine_layout hp hname (beq_iff_eq.mp hupper)]

omit hdistinct in
theorem upper_definitions : ∀ d ∈ s.definitions lines, Text.upper d.name = d.name := by
  intro d hd
  rcases List.mem_append.mp hd with hd | hd
  · exact Assembler.upper_predefined d hd
  · obtain ⟨p, _, hp⟩ := List.mem_filterMap.mp hd
    obtain ⟨name, _, rfl⟩ := Option.map_eq_some_iff.mp hp
    exact Text.upper_upper name

/-- **The table behind both passes** holds the first definition of every name. -/
theorem symbols_generate : (s.seed.generate lines).context.symbols
    = ⟨collect (s.definitions lines)⟩ := by
  have hnames : (s.seed.generate lines).context.symbols.symbols.map (·.name)
      = (s.seed.load lines).layout.context.symbols.symbols.map (·.name) := by
    have hblank := congrArg (List.map Symbol.name) (SymbolTable.map_blank_rewriteAll
      (s.seed.load lines).layout.context.symbols
      ((s.seed.load lines).layout.codeRun.1.map (·.statement)))
    rw [← symbols_code, List.map_map, List.map_map] at hblank
    exact hblank
  refine SymbolTable.eq_collect upper_definitions ?_ (lookup_generate hdistinct)
  rw [hnames, symbols_layout hdistinct, map_name_collect, map_name_layoutDefinitions]

end Table

end Assembly

/-! ### Reports -/

theorem SymbolTable.duplicates_of_lookup {t : SymbolTable} {s : Statement} {name : Text}
    {symbol : Symbol} (hname : s.reading.label = some name)
    (hsymbol : t.lookup name = some symbol) :
    t.duplicates s = if symbol.index ≠ s.index then
        [.duplicate symbol.name (some s.line) symbol.line] else [] := by
  unfold duplicates
  simp only [hname, hsymbol]

namespace Coding

/-- The reports of a second definition. -/
def Step.redefinitions (st : Step) : List Diagnostic :=
  st.errors.filter (·.kind == .duplicateSymbol)

@[simp] theorem filter_duplicates (t : SymbolTable) (s : Statement) :
    (t.duplicates s).filter (·.kind == .duplicateSymbol) = t.duplicates s := by
  unfold SymbolTable.duplicates
  split
  · rfl
  · split
    · rfl
    · split_ifs <;> rfl

/-- **A step reports the second definition of its label**, unless it is in error. -/
theorem redefinitions_step {c : Context} {s : Statement} (layout : Option Nat)
    (hbinds : c.symbols.Binds s) :
    (step c layout s).1.redefinitions
      = if (step c layout s).1.statement.reading.status.error? = none then
          c.symbols.duplicates (step c layout s).1.statement
        else [] := by
  have hdefinition : (checkDefinition c (s.parse c)).1.filter (·.kind == .duplicateSymbol)
      = c.symbols.duplicates (s.parse c) := by
    rw [checkDefinition_eq (s := s.parse c) hbinds (s.label_parse c)]
    exact filter_duplicates _ _
  unfold Step.redefinitions
  rcases step_cases c layout s with
    ⟨d, hd, hstep⟩ | ⟨hfinish, hstep⟩ | ⟨hnone, room, _, _, hstep⟩ | ⟨hnone, _, hstep⟩ <;>
      rw [hstep]
  · -- what is wrong with a single statement is never a second definition
    have hkind : d.kind ≠ .duplicateSymbol :=
      (Shape.kind_resolve_ne c (Shape.tidy_read s.text) hd).1
    refine List.filter_eq_nil_iff.mpr fun e he heq => hkind ?_
    rw [List.mem_singleton.mp he] at heq
    exact beq_iff_eq.mp heq
  · have hnone : (s.parse c).reading.status.error? = none := by
      rw [hfinish]
      rfl
    exact hdefinition.trans (if_pos hnone).symm
  · -- a change of size is another error
    show (_ ++ [_]).filter _ = _
    rw [List.filter_append, hdefinition]
    exact (List.append_nil _).trans (if_pos hnone).symm
  · exact hdefinition.trans (if_pos hnone).symm

theorem redefinitions_run {c : Context} {layout : List Nat} {ss : List Statement} {t : SymbolTable}
    (hblank : c.symbols.symbols.map Symbol.blank = t.symbols.map Symbol.blank)
    (hbinds : ∀ st ∈ (run c layout ss).1, t.Binds st.statement) :
    ∀ st ∈ (run c layout ss).1, st.redefinitions
      = if st.statement.reading.status.error? = none then t.duplicates st.statement else [] := by
  refine forall_run (I := fun c => c.symbols.symbols.map Symbol.blank = t.symbols.map Symbol.blank)
    (fun c layout s hc hbinds => ?_) hblank hbinds
  have hbinds := SymbolTable.binds_of_map_blank hc ((binds_step c layout s t).mp hbinds)
  constructor
  · rw [redefinitions_step layout hbinds, SymbolTable.duplicates_of_map_blank hc]
  · rw [symbols_step layout hbinds, SymbolTable.map_blank_rewrite]
    exact hc

end Coding

/-- The statement is well formed and defines a name that is known already. -/
def Passes.Redefines (known : List Symbol) (p : Pair) : Prop :=
  p.2.statement.reading.status.error? = none ∧
    ∃ d ∈ definition? p, d.name ∈ known.map (·.name)

instance (known : List Symbol) (p : Passes.Pair) : Decidable (Passes.Redefines known p) :=
  inferInstanceAs (Decidable (_ ∧ ∃ d ∈ _, _))

namespace Assembly

theorem redefinitions_codeRun (a : Assembly) : ∀ st ∈ a.layout.codeRun.1, st.redefinitions
    = if st.statement.reading.status.error? = none then
        a.layout.context.symbols.duplicates st.statement
      else [] := by
  rw [codeRun_layout]
  exact Coding.redefinitions_run rfl (a.binds_run _ _)

section Reports

variable {s : Assembler} {lines : List Text} (hdistinct : (s.predefined.map (·.name)).Nodup)
  {front back : List Passes.Pair} {p : Passes.Pair}
  (hpasses : (s.seed.load lines).passes = front ++ p :: back)

include hpasses

/-- A definition before a statement has another position. -/
theorem index_ne_of_known {known : Symbol}
    (h : known ∈ s.predefined ++ front.filterMap Passes.initial?) :
    known.index ≠ p.2.statement.index := by
  rcases List.mem_append.mp h with h | h
  · rw [Assembler.index_predefined known h]
    exact nofun
  · obtain ⟨q, hq, hdefine⟩ := List.mem_filterMap.mp h
    obtain ⟨name, _, rfl⟩ := Option.map_eq_some_iff.mp hdefine
    have hnodup := nodup_index_codeRun s.seed lines
    rw [← map_snd_passes, hpasses, List.map_append, List.map_append, List.map_append] at hnodup
    intro hindex
    refine (List.nodup_append.mp hnodup).2.2 q.2.statement.index ?_ p.2.statement.index ?_
      (Int.natCast_inj.mp hindex)
    · exact List.mem_map_of_mem (List.mem_map_of_mem (List.mem_map_of_mem hq))
    · exact List.mem_cons_self ..

include hdistinct

/-- **A label is found at its own position exactly if nothing before defines it.** -/
theorem length_duplicates {name : Text} (hname : p.2.statement.reading.label = some name) :
    ((s.seed.load lines).layout.context.symbols.duplicates p.2.statement).length
      = if Text.upper name ∈ (s.predefined ++ front.filterMap Passes.definition?).map (·.name)
        then 1 else 0 := by
  have hlookup : (s.seed.load lines).layout.context.symbols.lookup name
      = first (layoutDefinitions s lines) (Text.upper name) := by
    rw [symbols_layout hdistinct]
    exact SymbolTable.lookup_collect _ name
  unfold first layoutDefinitions at hlookup
  rw [hpasses, List.filterMap_append, List.filterMap_cons_some (Passes.initial_eq hname),
    ← List.append_assoc, List.find?_append] at hlookup
  have hknown : (s.predefined ++ front.filterMap Passes.definition?).map (·.name)
      = (s.predefined ++ front.filterMap Passes.initial?).map (·.name) := by
    rw [List.map_append, List.map_append, Passes.map_name_initial]
  have hindex : ∀ known ∈ s.predefined ++ front.filterMap Passes.initial?,
      known.index ≠ p.2.statement.index := fun _ => index_ne_of_known hpasses
  rw [hknown]
  generalize s.predefined ++ front.filterMap Passes.initial? = known at hlookup hindex ⊢
  cases hfind : known.find? (·.name == Text.upper name) with
  | some k =>
    have hmem := List.mem_of_find?_eq_some hfind
    have hk := List.find?_some hfind
    rw [hfind, Option.some_or, Option.map_some] at hlookup
    rw [SymbolTable.duplicates_of_lookup hname hlookup, if_pos (hindex k hmem),
      if_pos (List.mem_map.mpr ⟨k, hmem, beq_iff_eq.mp hk⟩)]
    rfl
  | none =>
    -- the statement finds the symbol that it has defined itself
    have hnew : Text.upper name ∉ known.map (·.name) := by
      intro hmem
      obtain ⟨k, hk, heq⟩ := List.mem_map.mp hmem
      exact List.find?_eq_none.mp hfind k hk (beq_iff_eq.mpr heq)
    rw [hfind, Option.none_or, List.find?_cons_of_pos (by simp), Option.map_some]
      at hlookup
    rw [SymbolTable.duplicates_of_lookup hname hlookup, if_neg (fun h => h rfl), if_neg hnew]
    rfl

/-- **A second definition is reported once**, and a first one is not. -/
theorem length_redefinitions : p.2.redefinitions.length
    = if Passes.Redefines (s.predefined ++ front.filterMap Passes.definition?) p then 1 else 0 := by
  have hp : p ∈ (s.seed.load lines).passes := by
    rw [hpasses]
    exact List.mem_append_right _ (List.mem_cons_self ..)
  rw [redefinitions_codeRun _ p.2 (snd_mem_of_mem_passes hp)]
  by_cases hnone : p.2.statement.reading.status.error? = none
  · rw [if_pos hnone]
    cases hname : p.2.statement.reading.label with
    | none =>
      have hnot : ¬Passes.Redefines (s.predefined ++ front.filterMap Passes.definition?) p := by
        rintro ⟨_, d, hd, _⟩
        obtain ⟨name, hname', _⟩ := Option.map_eq_some_iff.mp hd
        cases hname.symm.trans hname'
      unfold SymbolTable.duplicates
      rw [hname, if_neg hnot]
      rfl
    | some name =>
      rw [length_duplicates hdistinct hpasses hname]
      refine if_congr ⟨fun h => ⟨hnone, ?_⟩, ?_⟩ rfl rfl
      · refine ⟨_, Option.map_eq_some_iff.mpr ⟨name, hname, rfl⟩, h⟩
      · rintro ⟨_, d, hd, hmem⟩
        obtain ⟨name', hname', rfl⟩ := Option.map_eq_some_iff.mp hd
        obtain rfl := Option.some.inj (hname.symm.trans hname')
        exact hmem
  · rw [if_neg hnone, if_neg fun h => hnone h.1]
    rfl

end Reports

/-- **The first definition wins**, over the whole run.  The passes go over the statements up to the
end of the program.  Behind them the table holds the first definition of every name, in order, with
its position and line, marked if there is another definition; and a second definition is reported
once, where it stands and is well formed, and nowhere else. -/
theorem first_definition_wins (s : Assembler) (lines : List Text)
    (hdistinct : (s.defines.map fun entry => Text.upper entry.1).Nodup) :
    (s.seed.load lines).passes.map (·.2.statement.unread)
      = (Statement.reach (s.seed.load lines).statements).map Statement.unread ∧
    (s.seed.generate lines).context.symbols = ⟨collect (s.definitions lines)⟩ ∧
    (s.seed.generate lines).report.errors = (s.seed.load lines).passes.flatMap (·.2.errors) ∧
    ∀ front p back, (s.seed.load lines).passes = front ++ p :: back →
      p.2.redefinitions.length =
        if Passes.Redefines (s.predefined ++ front.filterMap Passes.definition?) p then 1
        else 0 := by
  have hnames : (s.predefined.map (·.name)).Nodup := by
    unfold Assembler.predefined
    rw [List.map_map]
    exact hdistinct
  exact ⟨map_unread_passes _, symbols_generate hnames, errors_passes _,
    fun front p back => length_redefinitions hnames⟩

/-- A predefined name, a label and an equate, each defined again. -/
theorem first_definition_wins_thrice :
    (({ defines := [("K".toList, 5)] } : Assembler).seed.generate
        ["L: NOP".toList, "K = 7".toList, "X = L+2".toList, "X: LDI L".toList, "L = X".toList,
          "END".toList]).context.symbols.symbols
      = [⟨"K".toList, some 5, true, predefinedIndex, none⟩, ⟨"L".toList, some 0, true, 0, some 1⟩,
          ⟨"X".toList, some 2, true, 2, some 3⟩] := by
  rw [(first_definition_wins { defines := [("K".toList, 5)] } _ (by decide)).2.1]
  decide +kernel

end Assembly

end Cosmac
