import Cosmac.Proofs.Counter
import Cosmac.Proofs.Decoding
import Cosmac.Proofs.Labels
import Mathlib.Data.List.Forall2

/-!
# A disassembly as a program

The instructions of a disassembly are printed, an origin before them and an end behind them, and
the two passes read them.

* `Coding.clean_step_iff`: in the coding pass an instruction at its own address gives its own bytes,
  exactly if its label is no duplicate and no symbol stands in for its register;
* `Passes.run_printed`: from the address of the first instruction on, both passes find every
  instruction at its own address, whatever statements stand behind them;
* `Disassembly.passes_program`: so they do in a whole program, up to an instruction that is cut off,
  and `Disassembly.passes_whole`: up to the end if none is.
-/

namespace Cosmac

/-! ### The step of a printed instruction -/

namespace Disassembled

@[simp] theorem takesRoom_operation (d : Disassembled) : d.operation.takesRoom = true := by
  unfold operation
  split <;> rfl

@[simp] theorem isEquate_operation (d : Disassembled) : d.operation.isEquate = false := by
  unfold operation
  split <;> rfl

end Disassembled

namespace Statement

variable {s : Statement} {c : Context} {label : Option Text} {d : Disassembled}

theorem ends_of_takesRoom (h : s.shape.operation.takesRoom = true) : s.ends = false := by
  unfold ends
  rw [decide_eq_false_iff_not]
  intro hfinish
  rw [hfinish] at h
  cases h

theorem follow_of_takesRoom {operation : Operation} (h : operation.takesRoom = true) (size : Nat)
    (pc : Int) : operation.follow size pc = word (pc + size) := by
  cases operation with
  | page => cases h
  | _ => rfl

theorem status_parse_of_takesRoom (h : s.shape.operation.takesRoom = true) :
    (s.parse c).reading.status ≠ .origin ∧ (s.parse c).reading.status ≠ .equate := by
  constructor
  · intro horigin
    have hisOrigin := s.isOrigin_of_status_parse c horigin
    revert h hisOrigin
    cases s.shape.operation <;> exact nofun
  · intro hequate
    have hisEquate := s.isEquate_of_status_parse c hequate
    revert h hisEquate
    cases s.shape.operation <;> exact nofun

/-- An instruction has its size in every context. -/
theorem size_parse_printed (hshape : s.shape = ⟨label, d.operation⟩) (hwhole : d.Whole) :
    (s.parse c).reading.size = d.size := by
  show (s.shape.resolve c).size = d.size
  rw [hshape]
  exact Disassembled.size_resolve hwhole c label

theorem takesRoom_printed (hshape : s.shape = ⟨label, d.operation⟩) :
    s.shape.operation.takesRoom = true := by
  rw [hshape]
  exact d.takesRoom_operation

end Statement

namespace Coding

variable {c : Context} {s : Statement} {d : Disassembled} {label : Option Text}

section Printed

variable (hshape : s.shape = ⟨label, d.operation⟩) (hwhole : d.Whole)

include hshape hwhole

/-- A printed instruction has the room of the layout, so without an error it gives its code. -/
theorem step_eq_emittedStep (herror : (s.parse c).reading.status.error? = none) :
    step c (some d.size) s = emittedStep c (s.parse c) := by
  have hends := Statement.ends_of_takesRoom (Statement.takesRoom_printed hshape)
  rcases step_cases c (some d.size) s with
    ⟨_, hfailed, _⟩ | ⟨hfinish, _⟩ | ⟨_, room, hroom, hsize, _⟩ | ⟨_, _, hstep⟩
  · rw [hfailed] at herror
    cases herror
  · rw [s.status_parse_eq_finish_iff c, hends] at hfinish
    cases hfinish
  · rw [← Option.some.inj hroom] at hsize
    exact absurd (Statement.size_parse_printed hshape hwhole).symm hsize
  · exact hstep

/-- Without an error there are as many bytes as the layout has room for. -/
theorem length_code_step (h : (step c (some d.size) s).1.errors = []) :
    (step c (some d.size) s).1.code.length = d.size := by
  have herror := error_parse_of_errors_nil h
  rw [step_eq_emittedStep hshape hwhole herror]
  show (Reading.ofText c s.text).code.length = d.size
  rw [← Reading.size_ofText c s.text herror]
  exact Statement.size_parse_printed hshape hwhole

/-- **In the coding pass an instruction at its own address gives its own bytes**, exactly if its
label is no duplicate and no symbol gives its register another number. -/
theorem clean_step_iff (hpc : c.pc = d.address) (hfinal : c.pass.isFinal = true)
    (hbinds : c.symbols.Binds s) :
    ((step c (some d.size) s).1.errors = [] ∧ (step c (some d.size) s).1.code = d.raw)
      ↔ c.symbols.duplicates (s.parse c) = [] ∧ d.Intact c.symbols := by
  have hresolve : (s.parse c).reading = (⟨label, d.operation⟩ : Shape).resolve c := by
    rw [← hshape]
    rfl
  have hcheck := checkDefinition_eq (s := s.parse c) hbinds (s.label_parse c)
  have hcode := Disassembled.code_resolve_iff hwhole label hpc hfinal
  rw [← hresolve] at hcode
  have hemitted : (s.parse c).reading.status.error? = none →
      (step c (some d.size) s).1.errors = c.symbols.duplicates (s.parse c) ∧
        (step c (some d.size) s).1.code = (s.parse c).reading.code := by
    intro herror
    rw [step_eq_emittedStep hshape hwhole herror]
    unfold emittedStep
    rw [hcheck]
    exact ⟨rfl, rfl⟩
  constructor
  · -- the code can be the right one only where there is no error
    rintro ⟨herrors, hraw⟩
    have herror := error_parse_of_errors_nil herrors
    obtain ⟨hduplicates, hreading⟩ := hemitted herror
    exact ⟨hduplicates ▸ herrors, hcode.mp ⟨herror, hreading ▸ hraw⟩⟩
  · rintro ⟨hnone, hintact⟩
    obtain ⟨herror, hraw⟩ := hcode.mpr hintact
    obtain ⟨hduplicates, hreading⟩ := hemitted herror
    exact ⟨hduplicates.trans hnone, hreading.trans hraw⟩

end Printed

/-- A printed instruction leaves the symbols alone, and moves the counter by the room that it has in
the layout, in error or not. -/
theorem step_printed (hshape : s.shape = ⟨label, d.operation⟩) (hword : word c.pc = c.pc)
    (hbinds : c.symbols.Binds s) (room : Nat) :
    (step c (some room) s).2 = { c with pc := word (c.pc + room) } := by
  have hroom := Statement.takesRoom_printed hshape
  have hstatus := Statement.status_parse_of_takesRoom (c := c) hroom
  -- a printed instruction is no equate, so it changes no symbol
  have hsymbols : (step c (some room) s).2.symbols = c.symbols := by
    rw [symbols_step (some room) hbinds]
    apply SymbolTable.rewrite_of_ne
    rw [Ne, status_step_eq_iff c (some room) s rfl]
    exact hstatus.2
  have hpc : (step c (some room) s).2.pc = word (c.pc + room) := by
    rw [pc_step hword (Statement.ends_of_takesRoom hroom) (by rw [hroom]; exact nofun)]
    unfold Statement.leave
    rw [Statement.shape_eq_of_unread_eq (unread_step c (some room) s), if_neg]
    · exact Statement.follow_of_takesRoom hroom room c.pc
    · rw [status_step_eq_iff c (some room) s rfl]
      exact hstatus.1
  have hpass := pass_step c (some room) s
  generalize (step c (some room) s).2 = after at hsymbols hpc hpass
  cases after
  subst hsymbols hpc hpass
  rfl

end Coding

/-- The layout moves its counter by the size of the instruction, too. -/
theorem Layout.pc_next_printed {c : Context} {s : Statement} {d : Disassembled}
    {label : Option Text} (hshape : s.shape = ⟨label, d.operation⟩) (hwhole : d.Whole)
    (hword : word c.pc = c.pc) : (next c s).pc = word (c.pc + d.size) := by
  have hroom := Statement.takesRoom_printed hshape
  rw [pc_next hword, Statement.size_parse_printed hshape hwhole]
  unfold Statement.leave
  rw [if_neg (Statement.status_parse_of_takesRoom hroom).1]
  exact Statement.follow_of_takesRoom hroom d.size c.pc

/-! ### Printed instructions in both passes -/

namespace Passes

/-- The steps at the statement that shows an instruction.  The layout and the coding pass find it at
its address, and the coding pass has the table `t`. -/
structure Shows (label : Disassembled → Option Text) (t : SymbolTable) (p : Pair)
    (d : Disassembled) : Prop where
  /-- The text says what the instruction is. -/
  shape : p.1.statement.shape = ⟨label d, d.operation⟩
  /-- The layout has read it. -/
  read : p.1.statement.parse p.1.before = p.1.statement
  /-- The layout puts it at its address. -/
  before : p.1.before.pc = d.address
  /-- The coding pass finds it there, with its room. -/
  step : p.2 = (Coding.step ⟨t, d.address, .final⟩ (some d.size) p.1.statement).1

/-- **Both passes find every instruction at its own address.** -/
theorem run_printed {label : Disassembled → Option Text} {ss : List Statement}
    {instructions : List Disassembled}
    (hshapes : List.Forall₂ (fun s d => s.shape = ⟨label d, d.operation⟩) ss instructions)
    (hwhole : ∀ d ∈ instructions, d.Whole) (c₁ c₂ : Context)
    (hconsecutive : Disassembly.Consecutive c₁.pc instructions) (hpc : c₂.pc = c₁.pc)
    (hword : word c₁.pc = c₁.pc) (hpass : c₂.pass = .final)
    (hbinds : ∀ s ∈ ss, c₂.symbols.Binds s) (tail : List Statement) :
    ∃ shown c₁' c₂', run c₁ c₂ (ss ++ tail) = shown ++ run c₁' c₂' tail ∧
      List.Forall₂ (Shows label c₂.symbols) shown instructions := by
  induction hshapes generalizing c₁ c₂ with
  | nil => exact ⟨[], c₁, c₂, rfl, .nil⟩
  | @cons s d ss instructions hshape hshapes ih =>
    have hwhole_d := hwhole d (List.mem_cons_self ..)
    have hsize := Statement.size_parse_printed (c := c₁) hshape hwhole_d
    have hnext₁ := Layout.pc_next_printed hshape hwhole_d hword
    have hnext₂ : next c₁ c₂ s = { c₂ with pc := word (c₂.pc + d.size) } := by
      unfold next
      rw [hsize]
      exact Coding.step_printed hshape (hpc ▸ hword) (hbinds s (List.mem_cons_self ..)) d.size
    have hends := Statement.ends_of_takesRoom (Statement.takesRoom_printed hshape)
    -- behind the instruction the passes are again at the same place, with the same symbols
    obtain ⟨shown, c₁', c₂', hrun, hshown⟩ := ih
      (fun d hd => hwhole d (List.mem_cons_of_mem _ hd)) (Layout.next c₁ s) (next c₁ c₂ s)
      (by rw [hnext₁]; exact hconsecutive.2) (by rw [hnext₁, hnext₂, hpc])
      (by rw [hnext₁, word_word]) (by rw [hnext₂]; exact hpass)
      (by rw [hnext₂]; exact fun s hs => hbinds s (List.mem_cons_of_mem _ hs))
    refine ⟨pair c₁ c₂ s :: shown, c₁', c₂', ?_, .cons ⟨hshape, rfl, hconsecutive.1.symm, ?_⟩ ?_⟩
    · rw [List.cons_append, run_cons c₁ c₂ _ hends, hrun, List.cons_append]
    · -- the coding pass is where the instruction belongs, with the symbols that it started from
      show (Coding.step c₂ (some (s.parse c₁).reading.size) s).1 = _
      have hc₂ : c₂ = ⟨c₂.symbols, d.address, .final⟩ := by
        rw [hconsecutive.1, ← hpc, ← hpass]
      rw [hsize]
      exact congrArg (fun c => (Coding.step c (some d.size) s).1) hc₂
    · rw [hnext₂] at hshown
      exact hshown

/-- The statement has no label, no error and no code. -/
structure Silent (p : Pair) : Prop where
  /-- It has no label. -/
  label : p.1.statement.reading.label = none
  /-- It has no error. -/
  errors : p.2.errors = []
  /-- It has no code. -/
  code : p.2.code = []

/-- The coding pass gives the bytes of the instruction, without an error. -/
structure Gives (p : Pair) (d : Disassembled) : Prop where
  /-- There is no error. -/
  errors : p.2.errors = []
  /-- The code is that of the instruction. -/
  code : p.2.code = d.raw

section Shows

variable {label : Disassembled → Option Text} {t : SymbolTable} {p : Pair} {d : Disassembled}
  (h : Shows label t p d)

include h

theorem label_of_shows : p.1.statement.reading.label = label d := by
  rw [← h.read, Statement.label_parse, h.shape]

/-- The layout gives the label the address of the instruction. -/
theorem definedValue_of_shows : p.1.before.definedValue p.1.statement = some d.address := by
  have hequate : p.1.statement.reading.equate = false := by
    rw [← h.read, Statement.equate_parse, h.shape]
    exact d.isEquate_operation
  unfold Context.definedValue
  rw [hequate, h.before]
  rfl

theorem start_of_shows : p.2.start = d.address := by
  rw [h.step, Coding.start_step]

theorem length_code_of_shows (hwhole : d.Whole) (herrors : p.2.errors = []) :
    p.2.code.length = d.size := by
  rw [h.step] at herrors ⊢
  exact Coding.length_code_step h.shape hwhole herrors

/-- **With a label of its own, an instruction gives its own bytes** exactly if no symbol gives its
register another number. -/
theorem gives_iff_of_shows (hwhole : d.Whole) (hbinds : t.Binds p.1.statement)
    (hown : ∀ name symbol, label d = some name → t.lookup name = some symbol →
      symbol.index = p.1.statement.index) :
    Gives p d ↔ d.Intact t := by
  have hgives : Gives p d ↔ p.2.errors = [] ∧ p.2.code = d.raw :=
    ⟨fun h => ⟨h.errors, h.code⟩, fun h => ⟨h.1, h.2⟩⟩
  have hduplicates :
      t.duplicates (p.1.statement.parse ⟨t, d.address, .final⟩) = [] := by
    unfold SymbolTable.duplicates
    rw [Statement.label_parse, h.shape]
    split
    · rfl
    · -- the label is defined by this statement, so it is no duplicate of another
      rename_i name hname
      split
      · rfl
      · rename_i symbol hsymbol
        exact if_neg (not_not.mpr (hown name symbol hname hsymbol))
  rw [hgives, h.step, Coding.clean_step_iff h.shape hwhole rfl rfl hbinds]
  exact and_iff_right hduplicates

end Shows

end Passes

/-! ### What stands around the instructions -/

/-- A layout reaches all statements if none but the last ends the program. -/
theorem Statement.reach_concat {ss : List Statement} (h : ∀ s ∈ ss, s.ends = false)
    (last : Statement) : reach (ss ++ [last]) = ss ++ [last] := by
  induction ss with
  | nil =>
    rw [List.nil_append, reach, reach]
    split <;> rfl
  | cons s rest ih =>
    rw [List.cons_append, reach, h s (List.mem_cons_self ..),
      ih fun s hs => h s (List.mem_cons_of_mem _ hs)]
    rfl

section Around

variable {s : Statement} (c : Context)

theorem Statement.parse_origin {n : Nat}
    (h : s.shape = ⟨none, .origin (.read (.ofNat n)) none⟩) :
    (s.parse c).reading = { value := n, status := .origin } := by
  show s.shape.resolve c = _
  rw [h]
  rfl

/-- An origin takes the layout to its address. -/
theorem Layout.next_origin {n : Nat} (h : s.shape = ⟨none, .origin (.read (.ofNat n)) none⟩) :
    next c s = { c with pc := word n } := by
  have hreading := Statement.parse_origin c h
  unfold next Context.bindLabel Context.move
  rw [hreading]
  rfl

/-- An origin takes the coding pass to its address, and nothing is emitted. -/
theorem Coding.step_origin {n : Nat} (h : s.shape = ⟨none, .origin (.read (.ofNat n)) none⟩) :
    step c (some 0) s = (⟨c.pc, s.parse c, [], [], word n⟩, { c with pc := word n }) := by
  have hreading := Statement.parse_origin c h
  unfold step codedStep checkDefinition Context.move
  dsimp only
  simp only [hreading]
  rfl

variable (layout : Option Nat)

theorem Coding.step_finish (h : s.shape = ⟨none, .finish⟩) :
    (step c layout s).1.errors = [] ∧ (step c layout s).1.code = [] := by
  have hreading : (s.parse c).reading = { status := .finish } := by
    show s.shape.resolve c = _
    rw [h]
    rfl
  unfold step endStep checkDefinition
  constructor <;> simp only [hreading]

/-- An instruction that the data cut off is the error of a missing operand, and gives no code. -/
theorem Coding.step_missing {label : Option Text} {i : Instruction}
    (h : s.shape = ⟨label, .instruction i (.broken ⟨none, .missingExpression⟩) {}⟩) :
    (step c layout s).1.errors = [(Diagnostic.ofKind .missingExpression).atLine s.line] ∧
      (step c layout s).1.code = [] := by
  have hstatus : (s.parse c).reading.status = .failed (.ofKind .missingExpression) := by
    show (s.shape.resolve c).status = _
    rw [h, Disassembled.resolve_instruction]
    rfl
  unfold step
  dsimp only
  rw [hstatus]
  exact ⟨rfl, rfl⟩

end Around

namespace Disassembly

/-- What stands in front of an instruction: spaces, with a label before them or without. -/
inductive Front : Text → Option Text → Prop
  | blank (n : Nat) : Front (List.replicate n ' ') none
  | label {name : Text} (hname : name.IsIdentifier) (n : Nat) :
    Front (name ++ ':' :: List.replicate n ' ') (some name)

namespace Front

variable {t : Text} {label : Option Text}

theorem read (hfront : Front t label) {name operands : Text} (hname : name.IsIdentifier)
    (hoperands : Shape.BeginsOperands operands) :
    Shape.read (t ++ Statement.printed name operands) = ⟨label, Operation.read name operands⟩ := by
  cases hfront with
  | blank n => exact Shape.read_unlabelled hname hoperands n
  | label hlabel n =>
    rw [List.append_assoc, List.cons_append]
    exact Shape.read_labelled hname hoperands hlabel n

theorem isRow (hfront : Front t label) : t.IsRow := by
  have hspaces : ∀ n, Text.IsRow (List.replicate n ' ') := by
    intro n c hc
    rw [List.eq_of_mem_replicate hc]
    decide
  cases hfront with
  | blank n => exact hspaces n
  | label hlabel n =>
    intro c hc
    rcases List.mem_append.mp hc with hc | hc
    · exact Text.isRow_of_isName hlabel.isName c hc
    · rcases List.mem_cons.mp hc with rfl | hc
      · decide
      · exact hspaces n c hc

/-- A printed statement behind it makes a line of source text. -/
theorem isRow_append (hfront : Front t label) {name operands : Text} (hname : name.IsIdentifier)
    (hoperands : operands.IsRow) :
    (t ++ Statement.printed name operands).IsRow ∧
      ∃ c ∈ t ++ Statement.printed name operands, Token.isNameChar c = true := by
  constructor
  · intro c hc
    rcases List.mem_append.mp hc with hc | hc
    · exact hfront.isRow c hc
    · unfold Statement.printed at hc
      split_ifs at hc
      · exact Text.isRow_of_isName hname.isName c hc
      · simp only [List.mem_append, List.mem_singleton] at hc
        rcases hc with (hc | rfl) | hc
        · exact Text.isRow_of_isName hname.isName c hc
        · decide
        · exact hoperands c hc
  · obtain ⟨c, rest, hprinted, hc⟩ := Shape.head_printed hname operands
    exact ⟨c, by simp [hprinted], hc⟩

end Front

/-- The instructions as the lines of a program: an origin, each instruction with what stands in
front of it, an end. -/
def rows (indent : Nat) (front : Disassembled → Text) (address : Int)
    (instructions : List Disassembled) : List Text :=
  (List.replicate indent ' ' ++
      Statement.printed "ORG".toList ("#".toList ++ Numeral.hex 4 address)) ::
    instructions.map (fun d => front d ++ d.source) ++
    [List.replicate indent ' ' ++ Statement.printed "END".toList []]

/-- The statement of an instruction, by its position. -/
def statementAt (front : Disassembled → Text) (i : Nat) (d : Disassembled) : Statement :=
  { text := front d ++ d.source, line := i + 2, index := i + 1 }

section Rows

variable {front : Disassembled → Text} {label : Disassembled → Option Text}
  (hfront : ∀ d, Front (front d) (label d)) {address : Int} (haddress : 0 ≤ address)
  (hlast : address ≤ 0xFFFF)

include haddress hlast in
theorem isRow_hex : Text.IsRow ("#".toList ++ Numeral.hex 4 address) := by
  obtain ⟨n, rfl⟩ := Int.eq_ofNat_of_zero_le haddress
  have hdigits : ∀ c ∈ Numeral.hex 4 n, Token.isHexDigit c = true :=
    (Numeral.number_hex (by omega) (by omega)).2.1
  have hhex : Text.IsName (Numeral.hex 4 n) := fun c hc =>
    Numeral.isNameChar_of_isHexDigit (hdigits c hc)
  intro c hc
  rcases List.mem_cons.mp hc with rfl | hc
  · decide
  · exact Text.isRow_of_isName hhex c hc

include hfront haddress hlast in
/-- The lines of the program are rows of text that the splitting keeps as they are. -/
theorem isRow_rows (indent : Nat) {instructions : List Disassembled}
    (hprintable : ∀ d ∈ instructions, d.Printable) :
    ∀ row ∈ rows indent front address instructions,
      row.IsRow ∧ ∃ c ∈ row, Token.isNameChar c = true := by
  intro row hrow
  unfold rows at hrow
  rcases List.mem_append.mp hrow with hrow | hrow
  · rcases List.mem_cons.mp hrow with rfl | hrow
    · exact (Front.blank indent).isRow_append (by decide) (isRow_hex haddress hlast)
    · obtain ⟨d, hd, rfl⟩ := List.mem_map.mp hrow
      exact (hfront d).isRow_append (hprintable d hd).mnemonic (hprintable d hd).row
  · rw [List.mem_singleton.mp hrow]
    exact (Front.blank indent).isRow_append (by decide) (by decide)

/-- The origin of the program. -/
def originStatement (indent : Nat) (address : Int) : Statement where
  text := List.replicate indent ' ' ++
    Statement.printed "ORG".toList ("#".toList ++ Numeral.hex 4 address)
  line := 1
  index := 0

/-- The end of the program, behind so many instructions. -/
def finishStatement (indent count : Nat) : Statement where
  text := List.replicate indent ' ' ++ Statement.printed "END".toList []
  line := count + 2
  index := count + 1

include haddress hlast in
/-- The first statement is read as an origin with the address. -/
theorem shape_originStatement (indent : Nat) :
    (originStatement indent address).shape
      = ⟨none, .origin (.read (.ofNat address.toNat)) none⟩ := by
  obtain ⟨n, rfl⟩ := Int.eq_ofNat_of_zero_le haddress
  have hread : Expr.read ("#".toList ++ Numeral.hex 4 n) = (.ok (.ofNat n), []) :=
    Expr.read_hex (by omega) (by omega)
  have hbegins : Shape.BeginsOperands ("#".toList ++ Numeral.hex 4 n) := by
    intro c hc
    obtain rfl := Option.some.inj hc
    decide
  refine ((Front.blank indent).read (by decide) hbegins).trans ?_
  show (⟨none, Operation.readLast .origin ("#".toList ++ Numeral.hex 4 n)⟩ : Shape) = _
  unfold Operation.readLast
  rw [hread]
  rfl

@[simp] theorem shape_finishStatement (indent count : Nat) :
    (finishStatement indent count).shape = ⟨none, .finish⟩ :=
  (Front.blank indent).read (by decide) (by decide)

/-- Both passes end at the last statement, which has no code and no error. -/
theorem run_finishStatement (c₁ c₂ : Context) (indent count : Nat) :
    ∃ last, Passes.run c₁ c₂ [finishStatement indent count] = [last] ∧ Passes.Silent last := by
  have hshape := shape_finishStatement indent count
  have hends : (finishStatement indent count).ends = true := by
    unfold Statement.ends
    rw [hshape]
    rfl
  obtain ⟨herrors, hcode⟩ := Coding.step_finish c₂
    (some ((finishStatement indent count).parse c₁).reading.size) hshape
  refine ⟨_, Passes.run_cons_of_ends c₁ c₂ [] hends, ?_, herrors, hcode⟩
  show ((finishStatement indent count).parse c₁).reading.label = none
  rw [Statement.label_parse, hshape]

include hfront in
/-- The text of an instruction is read as the instruction. -/
theorem shape_statementAt {d : Disassembled} (hprintable : d.Printable) (i : Nat) :
    (statementAt front i d).shape = ⟨label d, d.operation⟩ := by
  refine ((hfront d).read hprintable.mnemonic hprintable.begins).trans ?_
  rw [hprintable.read]

include hfront haddress hlast in
/-- The lines of the program are its statements. -/
theorem ofSource_rows (indent : Nat) {instructions : List Disassembled}
    (hprintable : ∀ d ∈ instructions, d.Printable) :
    Statement.ofSource (rows indent front address instructions)
      = originStatement indent address :: instructions.mapIdx (statementAt front) ++
          [finishStatement indent instructions.length] := by
  rw [Statement.ofSource_rows (isRow_rows hfront haddress hlast indent hprintable)]
  unfold rows
  rw [List.mapIdx_concat, List.mapIdx_cons]
  have hbody : (instructions.map fun d => front d ++ d.source).mapIdx
      (fun i row =>
        ({ text := row, line := ((i + 1 : Nat) : Int) + 1, index := i + 1 } : Statement))
        = instructions.mapIdx (statementAt front) := by
    have hstatementAt : statementAt front
        = fun i d => { text := front d ++ d.source, line := i + 2, index := i + 1 } := rfl
    refine List.ext_getElem? fun i => ?_
    rw [hstatementAt]
    simp [Function.comp_def, Int.add_assoc]
  rw [hbody]
  simp [originStatement, finishStatement, Int.add_assoc]

include hfront in
theorem forall₂_statementAt {instructions : List Disassembled}
    (hprintable : ∀ d ∈ instructions, d.Printable) :
    List.Forall₂ (fun s d => s.shape = ⟨label d, d.operation⟩)
      (instructions.mapIdx (statementAt front)) instructions := by
  refine List.forall₂_iff_get.mpr ⟨List.length_mapIdx, fun i _ hi => ?_⟩
  have hd := hprintable _ (List.get_mem instructions ⟨i, hi⟩)
  simpa using shape_statementAt hfront hd i

end Rows

/-- The program that the instructions make. -/
def program (indent : Nat) (front : Disassembled → Text) (address : Int)
    (instructions : List Disassembled) : Assembly :=
  ({} : Assembly).load (rows indent front address instructions)

section Program

variable {front : Disassembled → Text} {label : Disassembled → Option Text}
  (hfront : ∀ d, Front (front d) (label d)) {address : Int} (haddress : 0 ≤ address)
  (hlast : address ≤ 0xFFFF) (indent : Nat)

include hfront haddress hlast

/-- The program has one statement for each instruction, with the origin and the end around them. -/
theorem statements_program {instructions : List Disassembled}
    (hprintable : ∀ d ∈ instructions, d.Printable) :
    (program indent front address instructions).statements
      = originStatement indent address :: instructions.mapIdx (statementAt front) ++
          [finishStatement indent instructions.length] := by
  have hrows := isRow_rows hfront haddress hlast indent hprintable
  have hsource : (rows indent front address instructions).map Text.dropTerminator
      = rows indent front address instructions :=
    (List.map_congr_left (g := id) fun row hrow => Text.dropTerminator_row (hrows row hrow).1).trans
      (List.map_id _)
  show Statement.ofSource (List.map Text.dropTerminator _) = _
  rw [hsource]
  exact ofSource_rows hfront haddress hlast indent hprintable

/-- Nothing but the last statement ends the program, so a layout binds every label. -/
theorem binds_program {instructions : List Disassembled}
    (hprintable : ∀ d ∈ instructions, d.Printable) :
    ∀ s ∈ (program indent front address instructions).statements,
      (program indent front address instructions).layoutRun.2.symbols.Binds s := by
  have hstatements := statements_program hfront haddress hlast indent hprintable
  have hends : ∀ s ∈ originStatement indent address :: instructions.mapIdx (statementAt front),
      s.ends = false := by
    intro s hs
    rcases List.mem_cons.mp hs with rfl | hs
    · -- the origin does not end the program
      unfold Statement.ends
      rw [shape_originStatement haddress hlast]
      rfl
    · -- an instruction takes room, so it does not end the program
      obtain ⟨i, hi, rfl⟩ := List.mem_mapIdx.mp hs
      have hd := hprintable _ (List.getElem_mem hi)
      exact Statement.ends_of_takesRoom
        (Statement.takesRoom_printed (shape_statementAt hfront hd i))
  have hreach := Statement.reach_concat hends (finishStatement indent instructions.length)
  rw [← hstatements] at hreach
  generalize program indent front address instructions = a at hreach
  have hunread : (a.layoutRun.1.map (·.statement)).map Statement.unread
      = a.statements.map Statement.unread := by
    rw [List.map_map, ← hreach]
    exact Layout.unread_run _ _
  exact SymbolTable.binds_of_unread hunread (List.forall_mem_map.mpr (Layout.binds_run _ _))

/-- **In a program that is a disassembly, both passes find the instructions at their addresses**,
up to the first that is cut off. -/
theorem passes_program {whole more : List Disassembled}
    (hprintable : ∀ d ∈ whole ++ more, d.Printable) (hwhole : ∀ d ∈ whole, d.Whole)
    (hconsecutive : Consecutive address whole) :
    ∃ first shown c₁ c₂, (program indent front address (whole ++ more)).passes
        = first :: (shown ++ Passes.run c₁ c₂
            (more.mapIdx (fun i => statementAt front (i + whole.length)) ++
              [finishStatement indent (whole ++ more).length])) ∧
      Passes.Silent first ∧
      List.Forall₂
        (Passes.Shows label (program indent front address (whole ++ more)).layoutRun.2.symbols)
        shown whole := by
  have hstatements := statements_program hfront haddress hlast indent hprintable
  have hbinds := binds_program hfront haddress hlast indent hprintable
  have horigin := shape_originStatement haddress hlast indent
  have hends : (originStatement indent address).ends = false := by
    unfold Statement.ends
    rw [horigin]
    rfl
  rw [List.mapIdx_append, List.cons_append, List.append_assoc] at hstatements
  rw [Assembly.passes_eq]
  show ∃ first shown c₁ c₂, Passes.run (({} : Context).reset .first) _ _ = _ ∧ _
  generalize (program indent front address (whole ++ more)).layoutRun.2 = after at hbinds
  rw [hstatements] at hbinds ⊢
  rw [Passes.run_cons _ _ _ hends]
  have hword : word address.toNat = address := by
    unfold word
    omega
  have hsize : ((originStatement indent address).parse (({} : Context).reset .first)).reading.size
      = 0 := by
    rw [Statement.parse_origin _ horigin]
  have hstep := Coding.step_origin (after.reset .final) horigin
  -- behind the origin both passes stand at the address of the first instruction
  have hnext₁ : Layout.next (({} : Context).reset .first) (originStatement indent address)
      = ⟨{}, address, .first⟩ := by
    rw [Layout.next_origin _ horigin, hword]
    rfl
  have hnext₂ : Passes.next (({} : Context).reset .first) (after.reset .final)
      (originStatement indent address) = ⟨after.symbols, address, .final⟩ := by
    unfold Passes.next
    rw [hsize, hstep, hword]
    rfl
  rw [hnext₁, hnext₂]
  obtain ⟨shown, c₁, c₂, hrun, hshown⟩ := Passes.run_printed
    (forall₂_statementAt hfront fun d hd => hprintable d (List.mem_append_left _ hd)) hwhole
    ⟨{}, address, .first⟩ ⟨after.symbols, address, .final⟩ hconsecutive rfl
    (by rw [← hword, word_word]) rfl
    (fun s hs => hbinds s (List.mem_cons_of_mem _ (List.mem_append_left _ hs)))
    (more.mapIdx (fun i => statementAt front (i + whole.length)) ++
      [finishStatement indent (whole ++ more).length])
  refine ⟨_, shown, c₁, c₂, congrArg _ hrun, ⟨?_, ?_, ?_⟩, hshown⟩
  · show ((originStatement indent address).parse _).reading.label = none
    rw [Statement.parse_origin _ horigin]
  · show (Coding.step _ (some _) _).1.errors = []
    rw [hsize, hstep]
  · show (Coding.step _ (some _) _).1.code = []
    rw [hsize, hstep]

theorem passes_whole {instructions : List Disassembled} (hwhole : ∀ d ∈ instructions, d.Whole)
    (hconsecutive : Consecutive address instructions) :
    ∃ first last shown, (program indent front address instructions).passes
        = first :: (shown ++ [last]) ∧ Passes.Silent first ∧ Passes.Silent last ∧
      List.Forall₂
        (Passes.Shows label (program indent front address instructions).layoutRun.2.symbols)
        shown instructions := by
  have hprintable : ∀ d ∈ instructions ++ [], d.Printable := by
    rw [List.append_nil]
    exact fun d hd => (hwhole d hd).printable
  obtain ⟨first, shown, c₁, c₂, hpasses, hfirst, hshown⟩ :=
    passes_program hfront haddress hlast indent hprintable hwhole hconsecutive
  obtain ⟨last, hfinish, hsilent⟩ := run_finishStatement c₁ c₂ indent instructions.length
  rw [List.mapIdx_nil, List.nil_append, List.append_nil, hfinish] at hpasses
  rw [List.append_nil] at hshown
  exact ⟨first, last, shown, hpasses, hfirst, hsilent, hshown⟩

end Program

end Disassembly

end Cosmac
