import Cosmac.SymbolTable

/-!
# Looking up after a change

What `lookup` finds behind each of the changes that the passes make: `bind`, which defines a
symbol or marks it as a duplicate, and `assign`, which gives the symbol of an equate its value.
Names count in upper case, so every lemma has a case for the same name and one for another name.

An assignment leaves all of a symbol but its value (`map_blank_assign`), and it leaves the table as
it is if the table holds that value already (`assign_eq_self`).
-/

namespace Cosmac

/-- The symbol without its value: its name, and where it was defined. -/
def Symbol.blank (s : Symbol) : Symbol := { s with value := none }

namespace SymbolTable

/-- What is found under a name has this name in upper case. -/
theorem name_of_lookup {t : SymbolTable} {name : Text} {s : Symbol} (h : t.lookup name = some s) :
    s.name = Text.upper name := by
  unfold lookup at h
  have hs := List.find?_some h
  exact beq_iff_eq.mp hs

theorem lookup_congr (t : SymbolTable) {m n : Text} (h : Text.upper m = Text.upper n) :
    t.lookup m = t.lookup n := by
  unfold lookup
  rw [h]

/-! ### Changing a symbol -/

section Modify

variable {t : SymbolTable} {name m : Text} {f : Symbol → Symbol}

/-- A change that keeps names changes what is found, where the name is the changed one. -/
theorem lookup_modify (hf : ∀ s, (f s).name = s.name) :
    (t.modify name f).lookup m
      = (t.lookup m).map fun s => if s.name == Text.upper name then f s else s := by
  unfold lookup modify
  rw [List.find?_map]
  congr 2
  funext s
  show ((if s.name == Text.upper name then f s else s).name == Text.upper m) = _
  split
  · rw [hf]
  · rfl

theorem lookup_modify_same (hf : ∀ s, (f s).name = s.name) (h : Text.upper m = Text.upper name) :
    (t.modify name f).lookup m = (t.lookup m).map f := by
  rw [lookup_modify hf]
  cases hs : t.lookup m with
  | none => rfl
  | some s => simp [name_of_lookup hs, h]

theorem lookup_modify_other (hf : ∀ s, (f s).name = s.name) (h : Text.upper m ≠ Text.upper name) :
    (t.modify name f).lookup m = t.lookup m := by
  rw [lookup_modify hf]
  cases hs : t.lookup m with
  | none => rfl
  | some s => simp [name_of_lookup hs, h]

end Modify

/-! ### Definitions -/

/-- An inserted symbol is found only where none was found before. -/
@[simp] theorem lookup_insert (t : SymbolTable) (s : Symbol) (m : Text) :
    (t.insert s).lookup m
      = (t.lookup m).or (if s.name == Text.upper m then some s else none) := by
  unfold lookup insert
  rw [List.find?_append]
  simp

section Bind

variable {t : SymbolTable} {name m : Text} {value : Option Int} {index : Int} {line : Option Int}

/-- **A second definition marks the first as a duplicate** and keeps all else of it. -/
theorem lookup_bind_of_some {s : Symbol} (hs : t.lookup name = some s)
    (h : Text.upper m = Text.upper name) :
    (t.bind name value index line).lookup m = some { s with duplicate := true } := by
  unfold bind
  rw [hs]
  show (t.modify name fun s => { s with duplicate := true }).lookup m = _
  rw [lookup_modify_same (f := fun s => { s with duplicate := true }) (fun _ => rfl) h,
    lookup_congr t h, hs]
  rfl

/-- A first definition is found under its name, in any case of its letters. -/
theorem lookup_bind_of_none (hnone : t.lookup name = none) (h : Text.upper m = Text.upper name) :
    (t.bind name value index line).lookup m = some (newSymbol name value index line) := by
  unfold bind
  rw [hnone]
  show (t.insert _).lookup m = _
  rw [lookup_insert, lookup_congr t h, hnone]
  simp [newSymbol, h]

/-- A definition changes nothing under other names. -/
theorem lookup_bind_other (h : Text.upper m ≠ Text.upper name) :
    (t.bind name value index line).lookup m = t.lookup m := by
  unfold bind
  split
  · exact lookup_modify_other (fun _ => rfl) h
  · -- the new symbol is appended under its own name, which is not the one that is looked up
    rw [lookup_insert]
    have hne : ((newSymbol name value index line).name == Text.upper m) = false :=
      beq_eq_false_iff_ne.mpr (Ne.symm h)
    rw [hne]
    cases t.lookup m <;> rfl

end Bind

/-! ### Values -/

/-- Gives a symbol a value. -/
def assign (t : SymbolTable) (name : Text) (v : Int) : SymbolTable :=
  t.modify name fun s => { s with value := some v }

/-- An assignment changes the value of the symbol and nothing else of it. -/
theorem lookup_assign_same (t : SymbolTable) {name m : Text} (v : Int)
    (h : Text.upper m = Text.upper name) :
    (t.assign name v).lookup m = (t.lookup m).map fun s => { s with value := some v } :=
  lookup_modify_same (fun _ => rfl) h

theorem lookup_assign_other (t : SymbolTable) {name m : Text} (v : Int)
    (h : Text.upper m ≠ Text.upper name) : (t.assign name v).lookup m = t.lookup m :=
  lookup_modify_other (fun _ => rfl) h

/-- **An assignment leaves all of the table but values.** -/
@[simp] theorem map_blank_assign (t : SymbolTable) (name : Text) (v : Int) :
    (t.assign name v).symbols.map Symbol.blank = t.symbols.map Symbol.blank := by
  unfold assign modify
  rw [List.map_map]
  refine List.map_congr_left fun s _ => ?_
  show Symbol.blank (if s.name == Text.upper name then _ else s) = _
  split <;> rfl

/-- Tables that differ in values find symbols that differ in their values. -/
theorem map_blank_lookup {t t' : SymbolTable}
    (h : t.symbols.map Symbol.blank = t'.symbols.map Symbol.blank) (m : Text) :
    (t.lookup m).map Symbol.blank = (t'.lookup m).map Symbol.blank := by
  have hfind : ∀ u : SymbolTable, (u.lookup m).map Symbol.blank
      = (u.symbols.map Symbol.blank).find? (·.name == Text.upper m) := by
    intro u
    rw [List.find?_map]
    rfl
  rw [hfind, hfind, h]

/-- Every symbol with this name has this value. -/
def Holds (t : SymbolTable) (name : Text) (v : Int) : Prop :=
  ∀ s ∈ t.symbols, s.name = Text.upper name → s.value = some v

/-- After an assignment the name has the value. -/
theorem holds_assign (t : SymbolTable) (name : Text) (v : Int) :
    (t.assign name v).Holds name v := by
  intro s hs hname
  obtain ⟨s', _, rfl⟩ := List.mem_map.mp hs
  by_cases h : s'.name = Text.upper name
  · simp [h]
  · simp [h] at hname

/-- An assignment to another name keeps the value. -/
theorem holds_assign_other {t : SymbolTable} {name m : Text} {v w : Int} (ht : t.Holds name v)
    (h : Text.upper name ≠ Text.upper m) : (t.assign m w).Holds name v := by
  intro s hs hname
  obtain ⟨s', hs', rfl⟩ := List.mem_map.mp hs
  -- a symbol of the assigned name cannot have the other name as well
  by_cases h' : s'.name = Text.upper m
  · simp [h'] at hname
    exact absurd hname.symm h
  · simp [h'] at hname ⊢
    exact ht s' hs' hname

/-- A value that is there already is assigned without effect. -/
theorem assign_eq_self {t : SymbolTable} {name : Text} {v : Int} (h : t.Holds name v) :
    t.assign name v = t := by
  obtain ⟨symbols⟩ := t
  unfold assign modify
  congr 1
  -- every symbol that is touched has the value already
  refine (List.map_congr_left fun s hs => ?_).trans (List.map_id symbols)
  show (if s.name == Text.upper name then { s with value := some v } else s) = s
  split
  · rename_i hname
    rw [← h s hs (beq_iff_eq.mp hname)]
  · rfl

end SymbolTable

end Cosmac
