import Cosmac.Proofs.Conversion
import Cosmac.Proofs.Encoding
import Cosmac.Proofs.FirstDefinition

/-!
# Nothing stops an assembly

Several operations can refuse what they are given: a number is read from a text, the first
character is taken of one, an integer is stored as a byte, a symbol is created under a name that
must be new, or changed under a name that must be there.  Each of them is guarded, often at quite
another place, and here all the guards are shown to hold.  The functions named `attempt` do what the
assembler does by the operations themselves, with their refusals; none is ever met:

* `Text.convertible` for the numbers in a text;
* `Item.mapM_parts` and `Reading.attemptCode_ofText` for the bytes of data and code;
* `Layout.attempt_eq` and `Coding.attempt_eq` for the symbols of a program, statement by statement;
* `Assembler.attemptSeed_eq` for the symbols that are predefined: they are kept under upper-case
  names, which are their own upper case (`Assembler.Named`).

What is wrong with a program shows in its statements alone: each ends as what its text says or as an
error (`Statement.Settled`), and the one behind it is read all the same.
-/

namespace Cosmac

/-! ### Bytes -/

/-- The number as a byte, if it is one. -/
def byte? (n : Int) : Option UInt8 :=
  if IsByte n then some (UInt8.ofNat n.toNat) else none

theorem byte?_eq {n : Int} (h : IsByte n) : byte? n = some (byte n) := by
  unfold byte? byte lowByte
  rw [if_pos h, Int.emod_eq_of_lt h.1 h.2]

theorem mapM_byte? {ns : List Int} (h : ∀ n ∈ ns, IsByte n) :
    ns.mapM byte? = some (ns.map byte) := by
  induction ns with
  | nil => rfl
  | cons n ns ih =>
    obtain ⟨hn, hns⟩ := List.forall_mem_cons.mp h
    rw [List.mapM_cons, byte?_eq hn, ih hns]
    rfl

@[simp] theorem byte_lowByte (n : Int) : byte (lowByte n) = byte n := by
  unfold byte lowByte
  rw [Int.emod_emod]

/-- The low word of an integer as two numbers, the high byte first. -/
def wordParts (n : Int) : List Int := [highByte n, lowByte n]

@[simp] theorem mapM_wordParts (n : Int) : (wordParts n).mapM byte? = some (wordBytes n) := by
  refine mapM_byte? fun m hm => ?_
  rcases List.mem_pair.mp hm with rfl | rfl
  · exact isByte_highByte n
  · exact isByte_lowByte n

@[simp]
theorem mapM_lowByte (ns : List Int) : (ns.map lowByte).mapM byte? = some (ns.map byte) := by
  rw [mapM_byte? fun m hm => ?_, List.map_map]
  · exact congrArg some (List.map_congr_left fun n _ => byte_lowByte n)
  · obtain ⟨n, _, rfl⟩ := List.mem_map.mp hm
    exact isByte_lowByte n

/-- The numbers that a data item stores as bytes. -/
def Item.parts (c : Context) : Item → Except Diagnostic (List Int)
  | .string text => .ok ((text.map fun char => (char.toNat : Int)).map lowByte)
  | .expression e =>
    match e.eval c with
    | .error d => .error d
    | .ok v => .ok (if v.size = 2 then wordParts v.value else [v.value].map lowByte)

/-- **A data item stores bytes.** -/
theorem Item.mapM_parts (c : Context) (item : Item) :
    (item.parts c).map (List.mapM byte?) = (item.bytes c).map some := by
  cases item with
  | string text =>
    refine congrArg Except.ok ?_
    rw [mapM_lowByte, List.map_map]
    rfl
  | expression e =>
    unfold parts bytes
    dsimp only
    cases e.eval c with
    | error d => rfl
    | ok v =>
      -- one byte or two, by the size of the value
      refine congrArg Except.ok ?_
      unfold Value.bytes
      split
      · exact mapM_wordParts v.value
      · exact mapM_lowByte [v.value]

namespace Reading

/-- The numbers that stand for the operand behind an opcode. -/
def operandParts (r : Reading) : List Int :=
  if r.operandSize = 2 then wordParts r.value
  else if r.operandSize = 1 then [r.value].map lowByte
  else []

/-- The code of a statement, by an operation that refuses a number that is no byte. -/
def attemptCode (r : Reading) : Option (List UInt8) :=
  match r.status, r.instruction with
  | .data, _ => some r.data
  | .instruction, some i => do
    let opcode ← byte? (i.encode r.value)
    let operand ← r.operandParts.mapM byte?
    return opcode :: operand ++ r.data
  | _, _ => some []

@[simp]
theorem mapM_operandParts (r : Reading) : r.operandParts.mapM byte? = some r.operandBytes := by
  unfold operandParts operandBytes
  split
  · exact mapM_wordParts r.value
  · split
    · exact mapM_lowByte [r.value]
    · rfl

theorem attemptCode_eq {r : Reading} (h : r.status = .instruction →
    ∃ i ∈ Instruction.all, r.instruction = some i) : r.attemptCode = some r.encode := by
  unfold attemptCode encode
  cases hstatus : r.status with
  | instruction =>
    obtain ⟨i, hi, hr⟩ := h hstatus
    have hopcode : byte? (i.encode r.value) = some (UInt8.ofNat (i.encode r.value)) := by
      have hlt := Instruction.encode_lt hi r.value
      unfold byte?
      rw [if_pos ⟨Int.natCast_nonneg _, by omega⟩]
      rfl
    rw [hr]
    dsimp only
    rw [hopcode, mapM_operandParts]
    rfl
  | _ => rfl

/-- The code of a statement is that of its parts. -/
theorem code_ofText (c : Context) (t : Text) : (ofText c t).code = (ofText c t).encode := by
  unfold ofText
  generalize Shape.read t = s
  cases hd : (s.resolve c).status.error? with
  | some d =>
    have hstatus := Status.eq_failed_of_error hd
    rw [Shape.code_resolve_of_failed c s d hstatus]
    unfold encode
    rw [hstatus]
  | none =>
    rw [Shape.error_resolve] at hd
    rw [Shape.resolve_eq_settle]
    generalize s.progress c = p at hd ⊢
    obtain ⟨r, e⟩ := p
    obtain rfl : e = none := hd
    rfl

/-- **The code of a statement is stored as bytes.** -/
@[simp] theorem attemptCode_ofText (c : Context) (t : Text) :
    (ofText c t).attemptCode = some (ofText c t).code := by
  rw [code_ofText]
  refine attemptCode_eq fun hstatus => ?_
  obtain ⟨i, argument, list, _, _, hop, _, hi, _⟩ := exists_of_status_instruction hstatus
  have hfits := Shape.fits_read t
  rw [hop] at hfits
  exact ⟨i, hfits.1, hi⟩

end Reading

/-! ### The symbol table -/

namespace SymbolTable

variable (t : SymbolTable) (name : Text)

/-- A definition in a program, by the operations that can refuse it. -/
def enter (value : Option Int) (index : Int) (line : Option Int) :
    Except Diagnostic SymbolTable :=
  if t.contains name then t.markDuplicate name else t.define name value index line

/-- **A name is marked only if it is there, and created only if it is not.** -/
@[simp] theorem enter_eq (value : Option Int) (index : Int) (line : Option Int) :
    t.enter name value index line = .ok (t.bind name value index line) := by
  unfold enter contains markDuplicate define bind
  cases t.lookup name <;> rfl

variable {t name}

/-- The name of a symbol finds it again. -/
theorem updateValue_name {symbol : Symbol} (h : t.lookup name = some symbol) (v : Int) :
    t.updateValue symbol.name (some v)
      = .ok (t.modify name fun s => { s with value := some (word v) }) := by
  have hname : Text.upper symbol.name = Text.upper name := by
    rw [name_of_lookup h, Text.upper_upper]
  -- both the check and the change look for the upper case
  unfold updateValue
  rw [lookup_congr t hname, h]
  unfold modify
  rw [hname]
  rfl

end SymbolTable

/-- Binds the label of a statement, by the operations that can refuse it. -/
def Context.enterLabel (c : Context) (s : Statement) : Except Diagnostic Context :=
  match s.reading.label with
  | none => .ok c
  | some name => do
    let symbols ← c.symbols.enter name (c.definedValue s) s.index (some s.line)
    return { c with symbols }

@[simp] theorem Context.enterLabel_eq (c : Context) (s : Statement) :
    c.enterLabel s = .ok (c.bindLabel s) := by
  unfold enterLabel bindLabel
  cases s.reading.label with
  | none => rfl
  | some name =>
    dsimp only
    rw [SymbolTable.enter_eq]
    rfl

/-! ### The passes -/

/-- The layout, by the operations of the symbol table that can refuse. -/
def Layout.attempt (c : Context) : List Statement → Except Diagnostic (List Step × Context)
  | [] => .ok ([], c)
  | s :: rest => do
    let s := s.parse c
    let bound ← c.enterLabel s
    if s.isEnd then return ([⟨c, s⟩], bound)
    let (steps, final) ← attempt (bound.move s) rest
    return (⟨c, s⟩ :: steps, final)

/-- **The layout runs through.** -/
@[simp] theorem Layout.attempt_eq (c : Context) (ss : List Statement) :
    attempt c ss = .ok (run c ss) := by
  induction ss generalizing c with
  | nil => rfl
  | cons s rest ih =>
    unfold attempt run
    dsimp only
    rw [Context.enterLabel_eq]
    -- what is left is the same choice on both sides, whether the program ends here
    show (if _ then _ else _ : Except _ _) = .ok (if _ then _ else _)
    split
    · rfl
    · rw [ih]
      rfl

namespace Coding

/-- Checks a definition against the symbol table, by the operations that can refuse it. -/
def attemptDefinition (c : Context) (s : Statement) :
    Except Diagnostic (List Diagnostic × Context) :=
  match s.reading.label with
  | none => .ok ([], c)
  | some name =>
    match c.symbols.lookup name with
    | none => do return ([], ← c.enterLabel s)
    | some symbol =>
      if symbol.index ≠ s.index then
        .ok ([.duplicate symbol.name (some s.line) symbol.line], c)
      else if s.reading.status = .equate then do
        let symbols ← c.symbols.updateValue symbol.name (some s.reading.value)
        return ([], { c with symbols })
      else .ok ([], c)

@[simp] theorem attemptDefinition_eq (c : Context) (s : Statement) :
    attemptDefinition c s = .ok (checkDefinition c s) := by
  unfold attemptDefinition checkDefinition
  cases s.reading.label with
  | none => rfl
  | some name =>
    dsimp only
    cases hlookup : c.symbols.lookup name with
    | none =>
      dsimp only
      rw [Context.enterLabel_eq]
      rfl
    | some symbol =>
      dsimp only
      split
      · rfl
      · split
        · -- the value is stored under the name that the symbol itself has
          rw [SymbolTable.updateValue_name hlookup]
          rfl
        · rfl

/-- A well-formed statement other than the end, by the operations that can refuse it. -/
def attemptCoded (c : Context) (layout : Option Nat) (s : Statement) :
    Except Diagnostic (Step × Context) := do
  let (errors, checked) ← attemptDefinition c s
  let expected := layout.getD s.reading.size
  if expected ≠ s.reading.size then
    let after := checked.advance expected
    return (⟨c.pc, resize s expected, errors ++ [.phase expected s.reading.size (some s.line)], [],
      after.pc⟩, after)
  let after := checked.move s
  return (⟨c.pc, s, errors, s.reading.code, after.pc⟩, after)

@[simp] theorem attemptCoded_eq (c : Context) (layout : Option Nat) (s : Statement) :
    attemptCoded c layout s = .ok (codedStep c layout s) := by
  unfold attemptCoded codedStep
  rw [attemptDefinition_eq]
  show (if _ then _ else _ : Except _ _) = .ok (if _ then _ else _)
  split <;> rfl

/-- One statement of the coding pass, by the operations that can refuse it. -/
def attemptStep (c : Context) (layout : Option Nat) (s : Statement) :
    Except Diagnostic (Step × Context) :=
  let s := s.parse c
  match s.reading.status with
  | .failed d => .ok (failedStep c layout s d)
  | .finish => do
    let (errors, checked) ← attemptDefinition c s
    return (⟨c.pc, s, errors, [], checked.pc⟩, checked)
  | _ => attemptCoded c layout s

@[simp] theorem attemptStep_eq (c : Context) (layout : Option Nat) (s : Statement) :
    attemptStep c layout s = .ok (step c layout s) := by
  unfold attemptStep step endStep
  dsimp only
  rw [attemptDefinition_eq, attemptCoded_eq]
  cases (s.parse c).reading.status <;> rfl

/-- The coding pass, by the operations that can refuse. -/
def attempt (c : Context) (layout : List Nat) :
    List Statement → Except Diagnostic (List Step × Context)
  | [] => .ok ([], c)
  | s :: rest => do
    let (now, after) ← attemptStep c layout.head? s
    if now.statement.isEnd then return ([now], after)
    let (steps, final) ← attempt after layout.tail rest
    return (now :: steps, final)

/-- **The coding pass runs through.** -/
@[simp] theorem attempt_eq (c : Context) (layout : List Nat) (ss : List Statement) :
    attempt c layout ss = .ok (run c layout ss) := by
  induction ss generalizing c layout with
  | nil => rfl
  | cons s rest ih =>
    unfold attempt run
    dsimp only
    rw [attemptStep_eq]
    show (if _ then _ else _ : Except _ _) = .ok (if _ then _ else _)
    split
    · rfl
    · rw [ih]
      rfl

end Coding

/-! ### Predefined symbols -/

/-- A name that is set keeps its place, or it is the last. -/
theorem map_fst_setNamed (entries : List (Text × Int)) (name : Text) (value : Int) :
    (setNamed entries name value).map Prod.fst
      = if name ∈ entries.map Prod.fst then entries.map Prod.fst
        else entries.map Prod.fst ++ [name] := by
  have hsome : (entries.lookup name).isSome = true ↔ name ∈ entries.map Prod.fst := by
    rw [List.lookup_isSome_iff, List.mem_map]
    exact ⟨fun ⟨entry, hentry, h⟩ => ⟨entry, hentry, (beq_iff_eq.mp h).symm⟩,
      fun ⟨entry, hentry, h⟩ => ⟨entry, hentry, beq_iff_eq.mpr h.symm⟩⟩
  unfold setNamed
  by_cases h : name ∈ entries.map Prod.fst
  · rw [if_pos (hsome.mpr h), if_pos h, List.map_map]
    refine List.map_congr_left fun entry _ => ?_
    rw [Function.comp_apply]
    split_ifs with hname
    · exact hname.symm
    · rfl
  · rw [if_neg fun hlookup => h (hsome.mp hlookup), if_neg h, List.map_append]
    rfl

/-- New symbols with different names are all defined. -/
theorem Assembly.foldlM_define {entries : List (Text × Int)} {a : Assembly}
    (hdistinct : (entries.map fun entry => Text.upper entry.1).Nodup)
    (hnew : ∀ entry ∈ entries, a.context.symbols.lookup entry.1 = none) :
    entries.foldlM (fun assembly entry => assembly.define entry.1 (some entry.2)) a
      = .ok (entries.foldl (fun assembly entry =>
          (assembly.define entry.1 (some entry.2)).toOption.getD assembly) a) := by
  induction entries generalizing a with
  | nil => rfl
  | cons entry rest ih =>
    rw [List.map_cons] at hdistinct
    obtain ⟨hfirst, hrest⟩ := List.nodup_cons.mp hdistinct
    obtain ⟨hnew, hnews⟩ := List.forall_mem_cons.mp hnew
    rw [List.foldlM_cons, List.foldl_cons, define_of_new hnew]
    refine ih hrest fun other hother => ?_
    -- the new symbol is not the one that a later entry defines
    have hne : Text.upper entry.1 ≠ Text.upper other.1 :=
      fun heq => hfirst (heq ▸ List.mem_map_of_mem hother)
    show (SymbolTable.insert _ _).lookup other.1 = none
    rw [SymbolTable.lookup_insert, hnews other hother]
    exact if_neg fun h => hne (beq_iff_eq.mp h)

namespace Assembler

/-- The names of the predefined symbols are in upper case, and no two are the same. -/
structure Named (s : Assembler) : Prop where
  nodup : (s.defines.map Prod.fst).Nodup
  upper : ∀ name ∈ s.defines.map Prod.fst, Text.upper name = name

/-- A symbol that is predefined again under the same upper case takes the place of the first. -/
theorem Named.define {s : Assembler} (h : s.Named) (name : Text) (value : Int) :
    (s.define name value).Named := by
  have hnames := map_fst_setNamed s.defines (Text.upper name) (word value)
  constructor
  · show ((setNamed _ _ _).map Prod.fst).Nodup
    rw [hnames]
    split_ifs with hmem
    · exact h.nodup
    · refine List.nodup_append.mpr ⟨h.nodup, List.nodup_singleton _, fun m hm n hn heq => ?_⟩
      rw [heq, List.mem_singleton.mp hn] at hm
      exact hmem hm
  · show ∀ m ∈ (setNamed _ _ _).map Prod.fst, _
    rw [hnames]
    split_ifs with hmem
    · exact h.upper
    · intro m hm
      rcases List.mem_append.mp hm with hm | hm
      · exact h.upper m hm
      · rw [List.mem_singleton.mp hm, Text.upper_upper]

/-- Predefines symbols, one after the other. -/
def predefine (s : Assembler) (calls : List (Text × Int)) : Assembler :=
  calls.foldl (fun s call => s.define call.1 call.2) s

theorem Named.predefine {s : Assembler} (h : s.Named) (calls : List (Text × Int)) :
    (s.predefine calls).Named := by
  induction calls generalizing s with
  | nil => exact h
  | cons call rest ih => exact ih (h.define call.1 call.2)

theorem named_create (verbose : Bool) (defines : List (Text × Int)) (fill : Int) :
    (create verbose defines fill).Named := by
  have hempty : ({ verbose, fill := lowByte fill } : Assembler).Named :=
    ⟨List.nodup_nil, List.forall_mem_nil _⟩
  exact hempty.predefine _

theorem Named.distinct {s : Assembler} (h : s.Named) :
    (s.defines.map fun entry => Text.upper entry.1).Nodup := by
  have hupper : (s.defines.map fun entry => Text.upper entry.1) = s.defines.map Prod.fst :=
    List.map_congr_left fun entry hentry => h.upper entry.1 (List.mem_map_of_mem hentry)
  rw [hupper]
  exact h.nodup

/-- An empty assembly with the predefined symbols, by the operation that can refuse them. -/
def attemptSeed (s : Assembler) : Except Diagnostic Assembly :=
  s.defines.foldlM (fun assembly entry => assembly.define entry.1 (some entry.2)) {}

/-- **No predefined symbol is refused.** -/
theorem attemptSeed_eq {s : Assembler}
    (hdistinct : (s.defines.map fun entry => Text.upper entry.1).Nodup) :
    s.attemptSeed = .ok s.seed := by
  unfold attemptSeed seed
  exact Assembly.foldlM_define hdistinct fun _ _ => rfl

end Assembler

namespace Assembly

/-- Lays the program out, by the operations that can refuse. -/
def attemptLayout (a : Assembly) : Except Diagnostic Assembly := do
  let (steps, context) ← Layout.attempt (a.context.reset .first) a.statements
  let reached := steps.map (·.statement)
  return { a with
    context
    statements := a.replaceReached reached
    sizes := reached.map (·.reading.size)
    missingEnd := !reached.any (·.isEnd) }

@[simp] theorem attemptLayout_eq (a : Assembly) : a.attemptLayout = .ok a.layout := by
  unfold attemptLayout
  rw [Layout.attempt_eq]
  rfl

/-- Generates code, by the operations that can refuse. -/
def attemptCode (a : Assembly) : Except Diagnostic Assembly := do
  let (steps, context) ← Coding.attempt (a.context.reset .final) a.sizes a.statements
  return { a with
    context
    statements := a.replaceReached (steps.map (·.statement))
    image := imageOf steps
    listing := listingFrom 1 (a.source.take (listedLines a.source.length steps)) steps 0
    report := {
      errors := steps.flatMap (·.errors)
      warnings := if a.missingEnd then [missingEndWarning] else [] } }

@[simp] theorem attemptCode_eq (a : Assembly) : a.attemptCode = .ok a.code := by
  unfold attemptCode
  rw [Coding.attempt_eq]
  rfl

end Assembly

/-- Assembles source lines, by the operations that can refuse. -/
def Assembler.attempt (s : Assembler) (lines : List Text) : Except Diagnostic Assembler := do
  let seed ← s.attemptSeed
  let laidOut ← (seed.load lines).attemptLayout
  let assembly ← laidOut.attemptCode
  return { s with assembly }

namespace Assembler

variable {s : Assembler}

theorem attempt_eq (h : s.Named) (lines : List Text) :
    s.attempt lines = .ok (s.assembleLines lines).1 := by
  unfold attempt
  rw [attemptSeed_eq h.distinct]
  show Except.bind (s.seed.load lines).attemptLayout _ = _
  rw [Assembly.attemptLayout_eq]
  show Except.bind (s.seed.load lines).layout.attemptCode _ = _
  rw [Assembly.attemptCode_eq]
  rfl

end Assembler

/-! ### What statements end as -/

/-- The statement is what its text says, without an error, or it is an error. -/
def Statement.Settled (s : Statement) : Prop :=
  s.reading.status = s.shape.operation.status ∧ s.reading.status.error? = none ∨
    ∃ d, s.reading.status = .failed d

theorem Statement.settled_parse (c : Context) (s : Statement) : (s.parse c).Settled := by
  rcases s.status_parse c with h | h
  · refine Or.inl ⟨h, ?_⟩
    rw [h]
    cases s.shape.operation <;> rfl
  · exact Or.inr h

theorem Coding.settled_step (c : Context) (layout : Option Nat) (s : Statement) :
    (step c layout s).1.statement.Settled := by
  have hshape := Statement.shape_eq_of_unread_eq (unread_step c layout s)
  unfold Statement.Settled
  rw [hshape, status_step]
  rcases s.settled_parse c with ⟨h, hnone⟩ | ⟨d, hd⟩
  · rw [hnone]
    exact Or.inl ⟨h, hnone⟩
  · rw [hd]
    exact Or.inr ⟨_, rfl⟩

theorem Status.ne_failed {status : Status} (h : status.error? = none) (d : Diagnostic) :
    status ≠ .failed d := by
  rintro rfl
  cases h

/-- The error of a statement is reported, and nothing else with it. -/
theorem Coding.errors_of_failed {c : Context} {layout : Option Nat} {s : Statement}
    {d : Diagnostic} (h : (step c layout s).1.statement.reading.status = .failed d) :
    (step c layout s).1.errors = [d] := by
  rcases step_cases c layout s with ⟨e, _, hstep⟩ | ⟨hfinish, hstep⟩ | ⟨hnone, _, _, _, hstep⟩ |
    ⟨hnone, _, hstep⟩ <;> rw [hstep] at h ⊢
  · obtain rfl := Status.failed.inj h
    rfl
  · -- what ends the program is no error
    cases hfinish.symm.trans h
  · exact absurd h (Status.ne_failed hnone d)
  · exact absurd h (Status.ne_failed hnone d)

namespace Assembler

/-- Assembling the lines comes to its end. -/
structure Completes (s : Assembler) (lines : List Text) : Prop where
  /-- No operation of the symbol table refuses, from the predefined symbols on. -/
  attempt : s.attempt lines = .ok (s.assembleLines lines).1
  /-- The passes reach every statement up to the end of the program. -/
  reached : (s.seed.load lines).passes.map (·.2.statement.unread)
    = (Statement.reach (s.seed.load lines).statements).map Statement.unread
  /-- What both passes made of a statement is what its text says or an error, and the error is
  reported. -/
  settled : ∀ p ∈ (s.seed.load lines).passes, p.1.statement.Settled ∧ p.2.statement.Settled ∧
    ∀ d, p.2.statement.reading.status = .failed d → p.2.errors = [d]
  /-- The gaps of the image are filled with a byte. -/
  fill : byte? s.fill = some (byte s.fill)

@[simp] theorem fill_predefine (s : Assembler) (calls : List (Text × Int)) :
    (s.predefine calls).fill = s.fill := by
  induction calls generalizing s with
  | nil => rfl
  | cons call rest ih => exact ih (s.define call.1 call.2)

/-- **Nothing stops an assembly.**  Whatever symbols are predefined and whatever the lines hold, the
run comes to its end, every statement up to the end of the program with it; and whatever a text
holds and wherever it is read, no conversion of a token fails, and all that is stored as a byte is
one. -/
theorem assembling_completes (verbose : Bool) (defines : List (Text × Int)) (fill : Int)
    (calls : List (Text × Int)) (lines : List Text) :
    ((create verbose defines fill).predefine calls).Completes lines ∧
    (∀ t : Text, t.Convertible) ∧
    (∀ c item, (Item.parts c item).map (List.mapM byte?) = (Item.bytes c item).map some) ∧
    ∀ c t, (Reading.ofText c t).attemptCode = some (Reading.ofText c t).code := by
  have hnamed := (named_create verbose defines fill).predefine calls
  have hfill : ((create verbose defines fill).predefine calls).fill = lowByte fill := by
    rw [fill_predefine]
    exact fill_predefine _ _
  refine ⟨⟨attempt_eq hnamed lines, Assembly.map_unread_passes _, fun p hp => ?_, ?_⟩,
    Text.convertible, Item.mapM_parts, Reading.attemptCode_ofText⟩
  · obtain ⟨c₁, c₂, s, rfl, _⟩ := Assembly.exists_of_mem_passes hp
    exact ⟨s.settled_parse c₁, Coding.settled_step .., fun d => Coding.errors_of_failed⟩
  · rw [hfill]
    exact byte?_eq (isByte_lowByte fill)

/-- Names that are written alike in upper case, a letter that becomes two, and malformed lines. -/
theorem assembling_completes_sharp_s :
    (((create false [] 0x1FF).predefine [("ß".toList, 70000), ("SS".toList, -1)]).attempt
      ["ss: LDI aﬀb".toList, "X: DC T'ÿ',D'70000'".toList, "?".toList, "DC 'x', SS".toList,
        "DC SS, D'65535'".toList, "END".toList]).map
        (fun s => (s.code, s.assembly.report.errors.map (·.kind)))
      = .ok ([0xF8, 0xFB, 0xFF, 0xFF, 0xFF, 0xFF],
          [.duplicateSymbol, .invalidDecimal, .badStart, .invalidDecimal]) := by
  rw [(assembling_completes false [] 0x1FF [("ß".toList, 70000), ("SS".toList, -1)] _).1.attempt]
  exact congrArg Except.ok (by decide +kernel)

end Assembler

end Cosmac
