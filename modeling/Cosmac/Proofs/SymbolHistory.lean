import Cosmac.Proofs.Range
import Mathlib.Data.List.DropRight
import Mathlib.Data.List.Nodup

/-!
# The history of a symbol table

A table is what a series of calls has made of the empty one (`SymbolTable.ofCalls`).  The calls mix
spellings of the same name, and some of them fail.  One equation says what a single call can do:
it changes the symbols in their places and adds at most one at the end (`symbols_perform`).  All
else follows from it, one call after another:

* `wellFormed_ofCalls`: names are distinct and in upper case, values are words;
* `origin_prefix`: the symbols keep their places, and with them their names, indices and lines;
* `mem_ofCalls_iff`: the symbols of the table are those that the calls since the last clearing
  account for, each with its first definition, its last value and its marks (`Recorded`);
* `attempt_eq_error_iff`: a call fails for one of three reasons (`Refuses`);
* `untouched_perform`: a call leaves alone what it does not name.

The main statement is `SymbolTable.table_of_calls`.
-/

namespace Cosmac

/-- What a symbol keeps for good: its name, and the index and line of its definition. -/
def Symbol.origin (s : Symbol) : Text × Int × Option Int := (s.name, s.index, s.line)

namespace SymbolTable

/-! ### Calls -/

/-- A call of a symbol table. -/
inductive Call where
  /-- Creates a symbol. -/
  | define (name : Text) (value : Option Int) (index : Int) (line : Option Int)
  /-- Marks a symbol as defined again. -/
  | mark (name : Text)
  /-- Gives a symbol a new value. -/
  | update (name : Text) (value : Option Int)
  /-- Looks a symbol up. -/
  | lookup (name : Text)
  /-- Empties the table. -/
  | clear
  deriving DecidableEq, Repr

/-- The table that a call makes of a table, or why it fails. -/
def Call.attempt (t : SymbolTable) : Call → Except Diagnostic SymbolTable
  | define name value index line => t.define name value index line
  | mark name => t.markDuplicate name
  | update name value => t.updateValue name value
  | lookup _ => .ok t
  | clear => .ok {}

/-- The table behind a call, which is the same if the call fails. -/
def perform (t : SymbolTable) (call : Call) : SymbolTable := (call.attempt t).toOption.getD t

/-- The table behind a series of calls, the first of which finds it empty. -/
def ofCalls (calls : List Call) : SymbolTable := calls.foldl perform {}

@[simp] theorem ofCalls_concat (calls : List Call) (call : Call) :
    ofCalls (calls ++ [call]) = (ofCalls calls).perform call :=
  List.foldl_concat ..

/-- The names in the table. -/
def names (t : SymbolTable) : List Text := t.symbols.map (·.name)

section Lookup

variable {t : SymbolTable} {name : Text}

theorem lookup_eq_none_iff : t.lookup name = none ↔ Text.upper name ∉ t.names := by
  unfold lookup names
  rw [List.find?_eq_none, List.mem_map]
  simp only [beq_iff_eq, not_exists, not_and]

theorem mem_of_lookup {s : Symbol} (h : t.lookup name = some s) : s ∈ t.symbols :=
  List.mem_of_find?_eq_some h

theorem mem_names_of_lookup {s : Symbol} (h : t.lookup name = some s) :
    Text.upper name ∈ t.names :=
  List.mem_map.mpr ⟨s, mem_of_lookup h, name_of_lookup h⟩

theorem modify_of_none {f : Symbol → Symbol} (h : t.lookup name = none) : t.modify name f = t := by
  obtain ⟨symbols⟩ := t
  unfold modify
  congr 1
  refine (List.map_congr_left fun s hs => ?_).trans (List.map_id symbols)
  exact if_neg fun hname =>
    lookup_eq_none_iff.mp h (List.mem_map.mpr ⟨s, hs, beq_iff_eq.mp hname⟩)

end Lookup

/-- Changes the symbol with this name, which must be there. -/
def modify? (t : SymbolTable) (name : Text) (f : Symbol → Symbol) : Except Diagnostic SymbolTable :=
  match t.lookup name with
  | some _ => .ok (t.modify name f)
  | none => .error (.undefined (Text.upper name))

section Modify

variable (t : SymbolTable) (name : Text) (f : Symbol → Symbol)

@[simp] theorem markDuplicate_eq :
    t.markDuplicate name = t.modify? name fun s => { s with duplicate := true } :=
  rfl

@[simp] theorem updateValue_eq (value : Option Int) :
    t.updateValue name value = t.modify? name fun s => { s with value := value.map word } :=
  rfl

@[simp] theorem getD_modify? : (t.modify? name f).toOption.getD t = t.modify name f := by
  unfold modify?
  cases hold : t.lookup name with
  | some s => rfl
  | none => exact (modify_of_none hold).symm

theorem modify?_eq_error_iff {d : Diagnostic} : t.modify? name f = .error d ↔
    Text.upper name ∉ t.names ∧ d = .undefined (Text.upper name) := by
  unfold modify?
  rw [← lookup_eq_none_iff]
  cases t.lookup name with
  | some s =>
    refine ⟨fun h => ?_, fun h => ?_⟩
    · cases h
    · cases h.1
  | none => exact ⟨fun h => ⟨rfl, (Except.error.inj h).symm⟩, fun h => congrArg _ h.2.symm⟩

end Modify

/-! ### One call -/

namespace Call

/-- What a call makes of a symbol in the table. -/
def change (call : Call) (s : Symbol) : Symbol :=
  match call with
  | mark name => if s.name == Text.upper name then { s with duplicate := true } else s
  | update name value =>
    if s.name == Text.upper name then { s with value := value.map word } else s
  | _ => s

/-- The symbols that a call adds to those with the given names: the one that it defines, if its
name is new. -/
def added (known : List Text) : Call → List Symbol
  | define name value index line =>
    if Text.upper name ∈ known then [] else [newSymbol name value index line]
  | _ => []

end Call

section Perform

variable (t : SymbolTable) (name : Text)

theorem perform_define (value : Option Int) (index : Int) (line : Option Int) :
    t.perform (.define name value index line)
      = if Text.upper name ∈ t.names then t else t.insert (newSymbol name value index line) := by
  unfold perform Call.attempt define
  dsimp only
  cases hold : t.lookup name with
  | some s => exact (if_pos (mem_names_of_lookup hold)).symm
  | none => exact (if_neg (lookup_eq_none_iff.mp hold)).symm

@[simp] theorem perform_mark :
    t.perform (.mark name) = t.modify name fun s => { s with duplicate := true } := by
  unfold perform Call.attempt
  exact getD_modify? t name _

@[simp] theorem perform_update (value : Option Int) :
    t.perform (.update name value) = t.modify name fun s => { s with value := value.map word } := by
  unfold perform Call.attempt
  exact getD_modify? t name _

end Perform

/-- **One call**: every symbol stays in its place, and at most one comes behind them. -/
theorem symbols_perform (t : SymbolTable) {call : Call} (h : call ≠ .clear) :
    (t.perform call).symbols = t.symbols.map call.change ++ call.added t.names := by
  cases call with
  | define name value index line =>
    rw [perform_define]
    show _ = t.symbols.map id ++ if Text.upper name ∈ t.names then [] else _
    rw [List.map_id]
    split
    · exact (List.append_nil _).symm
    · rfl
  | mark name =>
    rw [perform_mark]
    exact (List.append_nil _).symm
  | update name value =>
    rw [perform_update]
    exact (List.append_nil _).symm
  | lookup name =>
    show t.symbols = t.symbols.map id ++ []
    rw [List.map_id, List.append_nil]
  | clear => exact absurd rfl h

/-! ### Well-formed tables -/

/-- What holds of every table: its names are in upper case and distinct, its values are words. -/
structure WellFormed (t : SymbolTable) : Prop where
  /-- Names are in upper case. -/
  upper : ∀ s ∈ t.symbols, Text.upper s.name = s.name
  /-- No name occurs twice. -/
  distinct : t.names.Nodup
  /-- A known value is a word. -/
  value : ∀ s ∈ t.symbols, ∀ v ∈ s.value, 0 ≤ v ∧ v ≤ 0xFFFF

theorem le_of_mem_map_word {value : Option Int} : ∀ v ∈ value.map word, 0 ≤ v ∧ v ≤ 0xFFFF := by
  intro v hv
  obtain ⟨n, -, rfl⟩ := Option.map_eq_some_iff.mp hv
  obtain ⟨hnonneg, hlt⟩ := isWord_word n
  exact ⟨hnonneg, Int.le_of_lt_add_one hlt⟩

namespace Call

/-- **A call gives a symbol a value or a mark and leaves the rest of it.** -/
theorem exists_change (call : Call) (s : Symbol) :
    ∃ value duplicate, call.change s = { s with value, duplicate } ∧
      (value = s.value ∨ ∃ v : Option Int, value = v.map word) := by
  unfold change
  cases call with
  | mark name =>
    dsimp only
    split
    · exact ⟨s.value, true, rfl, .inl rfl⟩
    · exact ⟨s.value, s.duplicate, rfl, .inl rfl⟩
  | update name value =>
    dsimp only
    split
    · exact ⟨value.map word, s.duplicate, rfl, .inr ⟨value, rfl⟩⟩
    · exact ⟨s.value, s.duplicate, rfl, .inl rfl⟩
  | _ => exact ⟨s.value, s.duplicate, rfl, .inl rfl⟩

@[simp] theorem name_change (call : Call) (s : Symbol) : (call.change s).name = s.name := by
  obtain ⟨value, duplicate, heq, -⟩ := call.exists_change s
  rw [heq]

theorem exists_of_mem_added {call : Call} {known : List Text} {d : Symbol}
    (h : d ∈ call.added known) : ∃ name value index line,
      call = .define name value index line ∧ Text.upper name ∉ known ∧
        d = newSymbol name value index line := by
  cases call with
  | define name value index line =>
    unfold added at h
    dsimp only at h
    split at h
    · exact absurd h List.not_mem_nil
    next hnew => exact ⟨name, value, index, line, rfl, hnew, List.mem_singleton.mp h⟩
  | _ => exact absurd h List.not_mem_nil

theorem nodup_added (call : Call) (known : List Text) :
    ((call.added known).map (·.name)).Nodup := by
  cases call with
  | define name value index line =>
    unfold added
    dsimp only
    split
    · exact List.nodup_nil
    · exact List.nodup_singleton _
  | _ => exact List.nodup_nil

end Call

/-- A call keeps the names in their order and adds at most one. -/
theorem names_perform (t : SymbolTable) {call : Call} (h : call ≠ .clear) :
    (t.perform call).names = t.names ++ (call.added t.names).map (·.name) := by
  unfold names
  rw [symbols_perform t h, List.map_append, List.map_map]
  congr 1
  exact List.map_congr_left fun s _ => call.name_change s

theorem wellFormed_empty : WellFormed {} where
  upper _ h := absurd h List.not_mem_nil
  distinct := List.nodup_nil
  value _ h := absurd h List.not_mem_nil

/-- Each call keeps a table well formed. -/
theorem WellFormed.perform {t : SymbolTable} (ht : t.WellFormed) (call : Call) :
    (t.perform call).WellFormed := by
  by_cases hclear : call = .clear
  · rw [hclear]
    exact wellFormed_empty
  · have hsymbols := symbols_perform t hclear
    constructor
    case upper =>
      intro s hs
      rcases List.mem_append.mp (hsymbols ▸ hs) with hs | hs
      · obtain ⟨old, hold, rfl⟩ := List.mem_map.mp hs
        rw [call.name_change]
        exact ht.upper old hold
      · -- an added name has been put in upper case
        obtain ⟨name, _, _, _, -, -, rfl⟩ := Call.exists_of_mem_added hs
        exact Text.upper_upper name
    case distinct =>
      rw [names_perform t hclear, List.nodup_append]
      -- an added name was not in the table
      refine ⟨ht.distinct, call.nodup_added t.names, fun n hn m hm hnm => ?_⟩
      obtain ⟨d, hd, rfl⟩ := List.mem_map.mp hm
      obtain ⟨name, _, _, _, -, hnew, rfl⟩ := Call.exists_of_mem_added hd
      rw [hnm] at hn
      exact hnew hn
    case value =>
      intro s hs
      rcases List.mem_append.mp (hsymbols ▸ hs) with hs | hs
      · obtain ⟨old, hold, rfl⟩ := List.mem_map.mp hs
        obtain ⟨value, duplicate, heq, hvalue⟩ := call.exists_change old
        rw [heq]
        show ∀ v ∈ value, 0 ≤ v ∧ v ≤ 0xFFFF
        -- the value is the old one, or a new one that has been cut to a word
        rcases hvalue with rfl | ⟨given, rfl⟩
        · exact ht.value old hold
        · exact le_of_mem_map_word
      · obtain ⟨_, _, _, _, -, -, rfl⟩ := Call.exists_of_mem_added hs
        exact le_of_mem_map_word

/-- **Every table is well formed.** -/
theorem wellFormed_ofCalls (calls : List Call) : (ofCalls calls).WellFormed := by
  induction calls using List.reverseRecOn with
  | nil => exact wellFormed_empty
  | append_singleton calls call ih =>
    rw [ofCalls_concat]
    exact ih.perform call

/-- In a well-formed table a look-up finds the one symbol with the name. -/
theorem WellFormed.lookup_eq_some_iff {t : SymbolTable} (ht : t.WellFormed) {name : Text}
    {s : Symbol} : t.lookup name = some s ↔ s ∈ t.symbols ∧ s.name = Text.upper name := by
  refine ⟨fun h => ⟨mem_of_lookup h, name_of_lookup h⟩, fun ⟨hs, hname⟩ => ?_⟩
  cases hfound : t.lookup name with
  | none => exact absurd (List.mem_map.mpr ⟨s, hs, hname⟩) (lookup_eq_none_iff.mp hfound)
  | some found =>
    -- the two have the same name, and names are distinct
    have hsame : found.name = s.name := (name_of_lookup hfound).trans hname.symm
    rw [List.inj_on_of_nodup_map ht.distinct (mem_of_lookup hfound) hs hsame]

/-! ### Places -/

/-- **A call moves no symbol.** -/
theorem origin_perform (t : SymbolTable) {call : Call} (h : call ≠ .clear) :
    t.symbols.map Symbol.origin <+: (t.perform call).symbols.map Symbol.origin := by
  refine ⟨(call.added t.names).map Symbol.origin, ?_⟩
  rw [symbols_perform t h, List.map_append, List.map_map]
  congr 1
  refine List.map_congr_left fun s _ => ?_
  obtain ⟨value, duplicate, heq, -⟩ := call.exists_change s
  show s.origin = (call.change s).origin
  rw [heq]
  rfl

/-- **Symbols keep their places until the table is cleared.** -/
theorem origin_prefix (calls : List Call) {more : List Call} (h : .clear ∉ more) :
    (ofCalls calls).symbols.map Symbol.origin
      <+: (ofCalls (calls ++ more)).symbols.map Symbol.origin := by
  induction more using List.reverseRecOn with
  | nil => exact ⟨[], by rw [List.append_nil, List.append_nil]⟩
  | append_singleton more call ih =>
    rw [List.mem_append, List.mem_singleton, not_or] at h
    rw [← List.append_assoc, ofCalls_concat]
    exact (ih h.1).trans (origin_perform _ (Ne.symm h.2))

/-! ### What a call leaves alone -/

/-- The name that a call changes. -/
def Call.target? : Call → Option Text
  | define name _ _ _ => some (Text.upper name)
  | mark name => some (Text.upper name)
  | update name _ => some (Text.upper name)
  | lookup _ => none
  | clear => none

/-- The symbols that a call does not name. -/
def untouched (t : SymbolTable) (call : Call) : List Symbol :=
  t.symbols.filter fun s => decide (call.target? ≠ some s.name)

theorem Call.change_of_ne {call : Call} {s : Symbol} (h : call.target? ≠ some s.name) :
    call.change s = s := by
  unfold change
  cases call with
  | mark name => exact if_neg fun hname => h (congrArg some (beq_iff_eq.mp hname).symm)
  | update name value => exact if_neg fun hname => h (congrArg some (beq_iff_eq.mp hname).symm)
  | _ => rfl

/-- **A call leaves alone what it does not name**, and a look-up leaves everything. -/
theorem untouched_perform (t : SymbolTable) {call : Call} (h : call ≠ .clear) :
    (t.perform call).untouched call = t.untouched call := by
  have hadded :
      (call.added t.names).filter (fun s => decide (call.target? ≠ some s.name)) = [] := by
    refine List.filter_eq_nil_iff.mpr fun d hd => ?_
    obtain ⟨name, value, index, line, rfl, -, rfl⟩ := Call.exists_of_mem_added hd
    rw [decide_eq_true_eq, not_not]
    rfl
  unfold untouched
  rw [symbols_perform t h, List.filter_append, hadded, List.append_nil, List.filter_map]
  have hkept : ((fun s : Symbol => decide (call.target? ≠ some s.name)) ∘ call.change)
      = fun s => decide (call.target? ≠ some s.name) := by
    funext s
    show decide (call.target? ≠ some (call.change s).name) = _
    simp
  rw [hkept]
  refine (List.map_congr_left fun s hs => ?_).trans (List.map_id _)
  exact Call.change_of_ne (of_decide_eq_true (List.mem_filter.mp hs).2)

/-! ### Failures -/

/-- Why a table refuses a call: the name to define is there, with the line of its definition, or
the name to change is not. -/
inductive Refuses (t : SymbolTable) : Call → Diagnostic → Prop
  /-- The name is defined already. -/
  | define {name : Text} {value : Option Int} {index : Int} {line : Option Int} {first : Symbol}
      (hfirst : first ∈ t.symbols) (hname : first.name = Text.upper name) :
      Refuses t (.define name value index line) (.duplicate (Text.upper name) line first.line)
  /-- There is nothing to mark. -/
  | mark {name : Text} (hname : Text.upper name ∉ t.names) :
      Refuses t (.mark name) (.undefined (Text.upper name))
  /-- There is nothing that could take the value. -/
  | update {name : Text} {value : Option Int} (hname : Text.upper name ∉ t.names) :
      Refuses t (.update name value) (.undefined (Text.upper name))

/-- A definition fails if the name is in the table, and tells the line that it was defined in. -/
theorem WellFormed.define_eq_error_iff {t : SymbolTable} (ht : t.WellFormed) {name : Text}
    {value : Option Int} {index : Int} {line : Option Int} {d : Diagnostic} :
    t.define name value index line = .error d ↔ ∃ first ∈ t.symbols,
      first.name = Text.upper name ∧ d = .duplicate (Text.upper name) line first.line := by
  unfold define
  cases hold : t.lookup name with
  | some first =>
    constructor
    · intro h
      exact ⟨first, mem_of_lookup hold, name_of_lookup hold, (Except.error.inj h).symm⟩
    · -- names are distinct, so this is the symbol that was found
      rintro ⟨other, hother, hname, rfl⟩
      rw [ht.lookup_eq_some_iff.mpr ⟨hother, hname⟩] at hold
      rw [Option.some.inj hold]
  | none =>
    constructor
    · intro h
      cases h
    · rintro ⟨other, hother, hname, -⟩
      exact absurd (List.mem_map.mpr ⟨other, hother, hname⟩) (lookup_eq_none_iff.mp hold)

/-- **A call fails exactly if it is refused.** -/
theorem WellFormed.attempt_eq_error_iff {t : SymbolTable} (ht : t.WellFormed) {call : Call}
    {d : Diagnostic} : call.attempt t = .error d ↔ t.Refuses call d := by
  cases call with
  | define name value index line =>
    refine ht.define_eq_error_iff.trans ⟨?_, fun h => ?_⟩
    · rintro ⟨first, hfirst, hname, rfl⟩
      exact .define hfirst hname
    · cases h with
      | define hfirst hname => exact ⟨_, hfirst, hname, rfl⟩
  | mark name =>
    rw [Call.attempt, markDuplicate_eq, modify?_eq_error_iff]
    refine ⟨?_, fun h => ?_⟩
    · rintro ⟨hname, rfl⟩
      exact .mark hname
    · cases h with
      | mark hname => exact ⟨hname, rfl⟩
  | update name value =>
    rw [Call.attempt, updateValue_eq, modify?_eq_error_iff]
    refine ⟨?_, fun h => ?_⟩
    · rintro ⟨hname, rfl⟩
      exact .update hname
    · cases h with
      | update hname => exact ⟨hname, rfl⟩
  | lookup name => constructor <;> rintro ⟨⟩
  | clear => constructor <;> rintro ⟨⟩

theorem perform_of_error {t : SymbolTable} {call : Call} {d : Diagnostic}
    (h : call.attempt t = .error d) : t.perform call = t := by
  unfold perform
  rw [h]
  rfl

/-! ### What the calls account for -/

namespace Call

/-- The call defines the name. -/
def Defines (n : Text) : Call → Prop
  | define name _ _ _ => Text.upper name = n
  | _ => False

/-- The value that the call gives to the name. -/
def update? (n : Text) : Call → Option (Option Int)
  | update name value => if Text.upper name = n then some value else none
  | _ => none

/-- The call marks the name as defined again. -/
def marks (n : Text) : Call → Bool
  | mark name => Text.upper name == n
  | _ => false

end Call

/-- The symbol of a definition with the calls behind it: the last value that one of them gives it,
else the value of the definition, and a mark if one of them marks it. -/
def settled (name : Text) (value : Option Int) (index : Int) (line : Option Int)
    (after : List Call) : Symbol where
  name := Text.upper name
  value := ((after.filterMap (Call.update? (Text.upper name))).getLast?.getD value).map word
  duplicate := after.any (Call.marks (Text.upper name))
  index := index
  line := line

/-- The calls account for the symbol: the first that defines its name, and those behind it. -/
inductive Recorded : List Call → Symbol → Prop
  | intro {before after : List Call} {name : Text} {value : Option Int} {index : Int}
      {line : Option Int} (hfirst : ∀ call ∈ before, ¬ call.Defines (Text.upper name)) :
      Recorded (before ++ .define name value index line :: after)
        (settled name value index line after)

/-- A later call changes the symbol as it changes it in the table. -/
theorem settled_concat (name : Text) (value : Option Int) (index : Int) (line : Option Int)
    (after : List Call) (call : Call) :
    settled name value index line (after ++ [call])
      = call.change (settled name value index line after) := by
  unfold settled
  rw [List.filterMap_append, List.any_append]
  cases call with
  | mark m =>
    by_cases h : Text.upper name = Text.upper m
    · simp [Call.change, Call.update?, Call.marks, h]
    · simp [Call.change, Call.update?, Call.marks, h, Ne.symm h]
  | update m v =>
    by_cases h : Text.upper name = Text.upper m
    · simp [Call.change, Call.update?, Call.marks, h]
    · simp [Call.change, Call.update?, Call.marks, h, Ne.symm h]
  | _ => simp [Call.change, Call.update?, Call.marks]

theorem Recorded.concat {calls : List Call} {s : Symbol} (h : Recorded calls s) (call : Call) :
    Recorded (calls ++ [call]) (call.change s) := by
  cases h with
  | intro hfirst =>
    rw [← settled_concat, List.append_assoc]
    exact .intro hfirst

/-- A symbol that one call more accounts for was accounted for before, or the call defines it. -/
theorem Recorded.of_concat {calls : List Call} {call : Call} {s : Symbol}
    (h : Recorded (calls ++ [call]) s) :
    (∃ old, Recorded calls old ∧ call.change old = s) ∨
      ∃ name value index line, call = .define name value index line ∧
        s = newSymbol name value index line ∧
        ∀ other ∈ calls, ¬ other.Defines (Text.upper name) := by
  generalize hall : calls ++ [call] = all at h
  cases h with
  | @intro before after name value index line hfirst =>
    rcases List.eq_nil_or_concat after with rfl | ⟨more, last, rfl⟩
    · -- the last call is the definition itself
      obtain ⟨rfl, hcall⟩ := List.append_inj' hall rfl
      exact .inr ⟨name, value, index, line, List.singleton_inj.mp hcall, rfl, hfirst⟩
    · -- the last call comes behind the definition
      rw [List.concat_eq_append] at hall ⊢
      rw [← List.cons_append, ← List.append_assoc] at hall
      obtain ⟨rfl, hcall⟩ := List.append_inj' hall rfl
      obtain rfl := List.singleton_inj.mp hcall
      exact .inl ⟨_, .intro hfirst, (settled_concat ..).symm⟩

section Recent

variable {calls : List Call} (hclear : .clear ∉ calls)

include hclear

/-- The names in the table are those that the calls define. -/
theorem mem_names_ofCalls (n : Text) :
    n ∈ (ofCalls calls).names ↔ ∃ call ∈ calls, call.Defines n := by
  induction calls using List.reverseRecOn with
  | nil =>
    refine ⟨fun h => absurd h List.not_mem_nil, ?_⟩
    rintro ⟨_, h, -⟩
    exact absurd h List.not_mem_nil
  | append_singleton calls call ih =>
    rw [List.mem_append, List.mem_singleton, not_or] at hclear
    rw [ofCalls_concat, names_perform _ (Ne.symm hclear.2), List.mem_append, ih hclear.1]
    constructor
    · rintro (⟨other, hother, hdefines⟩ | hadded)
      · exact ⟨other, List.mem_append_left _ hother, hdefines⟩
      · obtain ⟨d, hd, rfl⟩ := List.mem_map.mp hadded
        obtain ⟨name, value, index, line, rfl, -, rfl⟩ := Call.exists_of_mem_added hd
        exact ⟨_, List.mem_append_right _ (List.mem_singleton_self _), rfl⟩
    · rintro ⟨other, hother, hdefines⟩
      rcases List.mem_append.mp hother with hother | hother
      · exact .inl ⟨other, hother, hdefines⟩
      · obtain rfl := List.mem_singleton.mp hother
        cases other with
        | define name value index line =>
          obtain rfl : Text.upper name = n := hdefines
          -- a name that is known was defined before; the call fails, and its name is in the table
          by_cases hknown : Text.upper name ∈ (ofCalls calls).names
          · exact .inl ((ih hclear.1).mp hknown)
          · refine .inr (List.mem_map.mpr ⟨newSymbol name value index line, ?_, rfl⟩)
            rw [Call.added, if_neg hknown]
            exact List.mem_singleton_self _
        | _ => exact hdefines.elim

/-- **The symbols of a table are those that its calls account for.** -/
theorem mem_ofCalls_iff (s : Symbol) : s ∈ (ofCalls calls).symbols ↔ Recorded calls s := by
  induction calls using List.reverseRecOn generalizing s with
  | nil =>
    refine ⟨fun h => absurd h List.not_mem_nil, fun h => ?_⟩
    generalize hall : ([] : List Call) = all at h
    cases h with
    | intro hfirst => exact absurd hall.symm (by simp)
  | append_singleton calls call ih =>
    rw [List.mem_append, List.mem_singleton, not_or] at hclear
    rw [ofCalls_concat, symbols_perform _ (Ne.symm hclear.2), List.mem_append]
    constructor
    · rintro (hchanged | hadded)
      · obtain ⟨old, hold, rfl⟩ := List.mem_map.mp hchanged
        exact ((ih hclear.1 old).mp hold).concat call
      · obtain ⟨name, value, index, line, rfl, hnew, rfl⟩ := Call.exists_of_mem_added hadded
        rw [mem_names_ofCalls hclear.1] at hnew
        exact @Recorded.intro calls [] name value index line fun other hother hdefines =>
          hnew ⟨other, hother, hdefines⟩
    · intro h
      rcases h.of_concat with ⟨old, hold, rfl⟩ | ⟨name, value, index, line, rfl, rfl, hfirst⟩
      · exact .inl (List.mem_map.mpr ⟨old, (ih hclear.1 old).mpr hold, rfl⟩)
      · have hnew : Text.upper name ∉ (ofCalls calls).names := by
          rw [mem_names_ofCalls hclear.1]
          rintro ⟨other, hother, hdefines⟩
          exact hfirst other hother hdefines
        rw [Call.added, if_neg hnew]
        exact .inr (List.mem_singleton_self _)

end Recent

/-! ### The whole history -/

/-- The calls since the table was last cleared. -/
def sinceClear (calls : List Call) : List Call := calls.rtakeWhile (· ≠ .clear)

theorem clear_notMem_sinceClear (calls : List Call) : .clear ∉ sinceClear calls := by
  intro h
  have hne := List.mem_rtakeWhile_imp h
  exact of_decide_eq_true hne rfl

/-- Clearing forgets what came before. -/
@[simp]
theorem ofCalls_sinceClear (calls : List Call) : ofCalls (sinceClear calls) = ofCalls calls := by
  unfold sinceClear
  induction calls using List.reverseRecOn with
  | nil => rfl
  | append_singleton calls call ih =>
    rw [List.rtakeWhile_concat]
    split
    · rw [ofCalls_concat, ofCalls_concat, ih]
    next hclear =>
      rw [decide_eq_true_eq, not_not] at hclear
      rw [ofCalls_concat, hclear]
      rfl

/-- **A symbol table over any history.**  Its names are distinct and in upper case and its values
are words, and it holds just the symbols that the calls since the last clearing account for: each
with its first definition, its last value and its marks.  Symbols keep their names, indices, lines
and places until the table is cleared.  A look-up finds the symbol with the name.  A call fails if
it defines a name that is there, or changes one that is not, and then the table stays as it was; and
no call but clearing touches a symbol that it does not name. -/
theorem table_of_calls (calls : List Call) :
    (ofCalls calls).WellFormed ∧
    (∀ s, s ∈ (ofCalls calls).symbols ↔ Recorded (sinceClear calls) s) ∧
    (∀ more, .clear ∉ more → (ofCalls calls).symbols.map Symbol.origin
      <+: (ofCalls (calls ++ more)).symbols.map Symbol.origin) ∧
    (∀ name s, (ofCalls calls).lookup name = some s ↔
      s ∈ (ofCalls calls).symbols ∧ s.name = Text.upper name) ∧
    (∀ call d, call.attempt (ofCalls calls) = .error d ↔ (ofCalls calls).Refuses call d) ∧
    (∀ call d, (ofCalls calls).Refuses call d → ofCalls (calls ++ [call]) = ofCalls calls) ∧
    (∀ call t, call.attempt (ofCalls calls) = .ok t → ofCalls (calls ++ [call]) = t ∧
      (call ≠ .clear → t.untouched call = (ofCalls calls).untouched call)) := by
  have hwell := wellFormed_ofCalls calls
  refine ⟨hwell, fun s => ?_, fun more => origin_prefix calls, fun name s =>
    hwell.lookup_eq_some_iff, fun call d => hwell.attempt_eq_error_iff, fun call d h => ?_,
    fun call t h => ?_⟩
  · rw [← ofCalls_sinceClear]
    exact mem_ofCalls_iff (clear_notMem_sinceClear calls) s
  · rw [ofCalls_concat]
    exact perform_of_error (hwell.attempt_eq_error_iff.mpr h)
  · have hperform : (ofCalls calls).perform call = t := by
      unfold perform
      rw [h]
      rfl
    refine ⟨(ofCalls_concat calls call).trans hperform, fun hclear => ?_⟩
    rw [← hperform]
    exact untouched_perform _ hclear

/-- A name in three spellings: defined with a value that is cut to a word, marked, and given the
highest word. -/
theorem table_of_calls_spellings :
    let calls : List Call := [.define "ab".toList (some 70000) 0 (some 3), .mark "aB".toList,
      .update "Ab".toList (some (-1))]
    Recorded (sinceClear calls) ⟨"AB".toList, some 0xFFFF, true, 0, some 3⟩ ∧
    .clear ∉ [Call.lookup "ab".toList] ∧
    (ofCalls calls).symbols.map Symbol.origin
      <+: (ofCalls (calls ++ [.lookup "ab".toList])).symbols.map Symbol.origin ∧
    (ofCalls calls).Refuses (.define "AB".toList none 1 (some 4))
      (.duplicate "AB".toList (some 4) (some 3)) ∧
    ofCalls (calls ++ [.define "AB".toList none 1 (some 4)]) = ofCalls calls := by
  intro calls
  obtain ⟨-, hmem, hplace, -, hrefuses, hkept, -⟩ := table_of_calls calls
  have hrefused := (hrefuses (.define "AB".toList none 1 (some 4))
    (.duplicate "AB".toList (some 4) (some 3))).mp (by decide +kernel)
  exact ⟨(hmem _).mp (by decide +kernel), by decide, hplace _ (by decide), hrefused,
    hkept _ _ hrefused⟩

end SymbolTable

end Cosmac
