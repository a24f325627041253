import Cosmac.Proofs.Reading

/-!
# The parts of a statement

The code of a statement is a row of parts: the opcode with its operand, and the items of the data
list (`code_resolve_eq_iff`).  An expression has one term, so a part refers to one name at most, and
its bytes depend on what the table holds under that name (`Part.bytes_congr`).  How many bytes there
are depends only on whether the name is in the table at all (`Part.length_bytes`).

So the code cannot stay the same by changes of several parts that make up for each other: in another
table it is the same if and only if each part has the same bytes (`code_resolve_iff_bytes`).
-/

namespace Cosmac

/-- A part of a statement that has bytes of its own in the code. -/
inductive Part where
  /-- The opcode of an instruction, with its operand. -/
  | opcode (i : Instruction) (argument : Argument)
  /-- An item of the data list. -/
  | item (item : Item)

/-! ### Names -/

/-- The name that a term is, if it is one. -/
def Term.mention : Term → Option Text
  | .name n => some n
  | _ => none

/-- The name that a register operand is, if it is one. -/
def RegisterTerm.mention : RegisterTerm → Option Text
  | .name n => some n
  | .value _ => none

/-- The name that an operand refers to, if it does. -/
def Argument.mention : Argument → Option Text
  | .none => Option.none
  | .register term => term.mention
  | .expression e => e.term.mention

/-- The name that a part refers to, if it does. -/
def Part.mention : Part → Option Text
  | .opcode _ argument => argument.mention
  | .item (.expression e) => e.term.mention
  | .item (.string _) => none

/-- The bytes of a part. -/
def Part.bytes (c : Context) : Part → Except Diagnostic (List UInt8)
  | .opcode i argument =>
    match Reading.addOperand c i.operand (.read argument) {} with
    | (_, some d) => .error d
    | (r, none) => .ok (UInt8.ofNat (i.encode r.value) :: r.operandBytes)
  | .item datum => datum.bytes c

/-- An opcode with its operand has bytes exactly if the operand is read without an error. -/
theorem Part.bytes_opcode_eq_ok_iff {c : Context} {i : Instruction} {argument : Argument}
    {b : List UInt8} :
    (Part.opcode i argument).bytes c = .ok b ↔
      ∃ r, Reading.addOperand c i.operand (.read argument) {} = (r, none) ∧
        UInt8.ofNat (i.encode r.value) :: r.operandBytes = b := by
  show (match Reading.addOperand c i.operand (.read argument) {} with
    | (_, some d) => Except.error d
    | (r, none) => Except.ok _) = _ ↔ _
  constructor
  · intro h
    split at h
    · cases h
    · rename_i r hr
      exact ⟨r, hr, Except.ok.inj h⟩
  · rintro ⟨r, hr, rfl⟩
    rw [hr]

theorem Item.bytes_expression_eq_ok {c : Context} {e : Expr} {b : List UInt8}
    (h : (Item.expression e).bytes c = .ok b) : ∃ v, e.eval c = .ok v ∧ v.bytes = b := by
  unfold Item.bytes at h
  dsimp only at h
  split at h
  · cases h
  · rename_i v hv
    exact ⟨v, hv, Except.ok.inj h⟩

section Table

variable (c : Context) {t t' : SymbolTable}

/-- A term looks up its name and no other. -/
theorem Term.eval_congr {term : Term} (h : ∀ n ∈ term.mention, t.lookup n = t'.lookup n) :
    term.eval { c with symbols := t } = term.eval { c with symbols := t' } := by
  cases term with
  | name n =>
    unfold Term.eval Context.nameValue
    simp only [h n rfl]
    rfl
  | _ => rfl

theorem Expr.eval_congr {e : Expr} (h : ∀ n ∈ e.term.mention, t.lookup n = t'.lookup n) :
    e.eval { c with symbols := t } = e.eval { c with symbols := t' } := by
  unfold Expr.eval
  rw [Term.eval_congr c h]

theorem RegisterTerm.eval_congr {term : RegisterTerm} (r : RegisterClass)
    (h : ∀ n ∈ term.mention, t.lookup n = t'.lookup n) :
    term.eval { c with symbols := t } r = term.eval { c with symbols := t' } r := by
  cases term with
  | name n =>
    unfold RegisterTerm.eval
    simp only [h n rfl]
    rfl
  | value _ => rfl

/-- **The bytes of a part depend on one symbol.** -/
theorem Part.bytes_congr {part : Part} (h : ∀ n ∈ part.mention, t.lookup n = t'.lookup n) :
    part.bytes { c with symbols := t } = part.bytes { c with symbols := t' } := by
  cases part with
  | opcode i argument =>
    cases argument with
    | none => rfl
    | register term =>
      unfold Part.bytes Reading.addOperand Reading.addRegister
      simp only [RegisterTerm.eval_congr c _ h]
    | expression e =>
      unfold Part.bytes Reading.addOperand Reading.addExpression
      simp only [Expr.eval_congr c h]
  | item datum =>
    cases datum with
    | string text => rfl
    | expression e =>
      unfold Part.bytes Item.bytes
      simp only [Expr.eval_congr c h]

/-- A part has the bytes that it has in any table which holds the same under its name. -/
theorem Part.bytes_eq_of_lookup {part : Part}
    (h : ∀ n ∈ part.mention, t.lookup n = c.symbols.lookup n ∨
      ∃ t', t.lookup n = t'.lookup n ∧ part.bytes { c with symbols := t' } = part.bytes c) :
    part.bytes { c with symbols := t } = part.bytes c := by
  cases hname : part.mention with
  | none =>
    refine Part.bytes_congr c fun n hn => ?_
    rw [hname] at hn
    cases hn
  | some n =>
    have hcongr : ∀ t', t.lookup n = t'.lookup n →
        part.bytes { c with symbols := t } = part.bytes { c with symbols := t' } := by
      intro t' hlookup
      refine Part.bytes_congr c fun m hm => ?_
      rw [hname] at hm
      obtain rfl := Option.some.inj hm
      exact hlookup
    rcases h n hname with hsame | ⟨t', hlookup, hbytes⟩
    · exact hcongr c.symbols hsame
    · exact (hcongr t' hlookup).trans hbytes

/-! ### Numbers of bytes -/

/-- Values with the same room. -/
structure Value.Alike (v v' : Value) : Prop where
  /-- They take equally many bytes as data. -/
  size : v.size = v'.size
  /-- Both are addresses, or neither is. -/
  addressOf : v.addressOf = v'.addressOf

theorem Value.Alike.refl (v : Value) : v.Alike v := ⟨rfl, rfl⟩

omit c in
/-- A symbol takes one byte, whatever its value is and also without one. -/
theorem Context.alike_nameValue {c : Context} {n : Text} {symbol : Symbol} {v : Value}
    (hsymbol : c.symbols.lookup n = some symbol) (hv : c.nameValue n = .ok v) :
    v.Alike { value := 0 } := by
  unfold Context.nameValue Context.undefined at hv
  simp only [hsymbol] at hv
  split at hv
  · obtain rfl := Except.ok.inj hv
    exact ⟨rfl, rfl⟩
  · split at hv
    · cases hv
    · obtain rfl := Except.ok.inj hv
      exact ⟨rfl, rfl⟩

/-- The room of a term depends on whether its name is in the table. -/
theorem Term.alike_eval {term : Term} {v v' : Value}
    (h : ∀ n ∈ term.mention, (t.lookup n).isSome = (t'.lookup n).isSome)
    (hv : term.eval { c with symbols := t } = .ok v)
    (hv' : term.eval { c with symbols := t' } = .ok v') : v.Alike v' := by
  cases term with
  | name n =>
    have hsome := h n rfl
    cases hn : t.lookup n with
    | none =>
      -- a name that is in neither table has the same value in both
      have hn' : t'.lookup n = none := by
        rw [hn] at hsome
        exact Option.not_isSome_iff_eq_none.mp fun h' => nomatch hsome.trans h'
      have heval : Term.eval { c with symbols := t } (.name n) = _ :=
        Term.eval_congr c fun m hm => by
          obtain rfl := Option.some.inj hm
          exact hn.trans hn'.symm
      rw [hv, hv'] at heval
      exact Except.ok.inj heval ▸ Value.Alike.refl v
    | some symbol =>
      rw [hn] at hsome
      obtain ⟨symbol', hn'⟩ := Option.isSome_iff_exists.mp hsome.symm
      have halike := Context.alike_nameValue (c := { c with symbols := t }) hn hv
      have halike' := Context.alike_nameValue (c := { c with symbols := t' }) hn' hv'
      exact ⟨halike.size.trans halike'.size.symm, halike.addressOf.trans halike'.addressOf.symm⟩
  | here => exact (Except.ok.inj (hv.symm.trans hv')) ▸ Value.Alike.refl v
  | constant n => exact (Except.ok.inj (hv.symm.trans hv')) ▸ Value.Alike.refl v
  | character b => exact (Except.ok.inj (hv.symm.trans hv')) ▸ Value.Alike.refl v

/-- The room of an expression is that of its term, unless an offset or a selector fixes it. -/
theorem Expr.alike_eval {e : Expr} {v v' : Value}
    (h : ∀ n ∈ e.term.mention, (t.lookup n).isSome = (t'.lookup n).isSome)
    (hv : e.eval { c with symbols := t } = .ok v)
    (hv' : e.eval { c with symbols := t' } = .ok v') : v.Alike v' := by
  unfold Expr.eval at hv hv'
  split at hv
  · cases hv
  · rename_i w hw
    split at hv'
    · cases hv'
    · rename_i w' hw'
      obtain rfl := Except.ok.inj hv
      obtain rfl := Except.ok.inj hv'
      have halike := Term.alike_eval c h hw hw'
      cases e.selector with
      | plain =>
        cases e.offset with
        | none => exact halike
        | some amount => exact ⟨rfl, halike.addressOf⟩
      | _ => exact ⟨rfl, rfl⟩

theorem Value.length_bytes {v v' : Value} (h : v.Alike v') : v.bytes.length = v'.bytes.length := by
  unfold Value.bytes
  rw [h.size]
  split <;> rfl

omit c in
theorem Reading.length_operandBytes {r r' : Reading} (h : r.operandSize = r'.operandSize) :
    r.operandBytes.length = r'.operandBytes.length := by
  unfold Reading.operandBytes
  rw [h]
  split
  · rfl
  · split <;> rfl

/-- How many bytes an operand has does not depend on the values in the table. -/
theorem Reading.operandSize_addOperand {kind : OperandKind} {argument : Argument} {r r' : Reading}
    (h : ∀ n ∈ argument.mention, (t.lookup n).isSome = (t'.lookup n).isSome)
    (hr : addOperand { c with symbols := t } kind (.read argument) {} = (r, none))
    (hr' : addOperand { c with symbols := t' } kind (.read argument) {} = (r', none)) :
    r.operandSize = r'.operandSize := by
  cases argument with
  | none =>
    obtain rfl := (Prod.mk.inj hr).1
    obtain rfl := (Prod.mk.inj hr').1
    rfl
  | register term =>
    obtain ⟨v, rfl⟩ := addRegister_eq_ok hr
    obtain ⟨v', rfl⟩ := addRegister_eq_ok hr'
    rfl
  | expression e =>
    obtain ⟨v, hv, hr⟩ := addExpression_eq_ok hr
    obtain ⟨v', hv', hr'⟩ := addExpression_eq_ok hr'
    -- the kind decides, and for an immediate operand whether it is an address
    have haddress := (Expr.alike_eval c h hv hv').addressOf
    grind

/-- **How many bytes a part has** depends on whether its name is in the table. -/
theorem Part.length_bytes {part : Part} {b b' : List UInt8}
    (h : ∀ n ∈ part.mention, (t.lookup n).isSome = (t'.lookup n).isSome)
    (hb : part.bytes { c with symbols := t } = .ok b)
    (hb' : part.bytes { c with symbols := t' } = .ok b') : b.length = b'.length := by
  cases part with
  | opcode i argument =>
    obtain ⟨r, hr, rfl⟩ := Part.bytes_opcode_eq_ok_iff.mp hb
    obtain ⟨r', hr', rfl⟩ := Part.bytes_opcode_eq_ok_iff.mp hb'
    rw [List.length_cons, List.length_cons, Reading.length_operandBytes]
    exact Reading.operandSize_addOperand c h hr hr'
  | item datum =>
    cases datum with
    | string text =>
      obtain rfl := Except.ok.inj hb
      obtain rfl := Except.ok.inj hb'
      rfl
    | expression e =>
      obtain ⟨v, hv, rfl⟩ := Item.bytes_expression_eq_ok hb
      obtain ⟨v', hv', rfl⟩ := Item.bytes_expression_eq_ok hb'
      exact Value.length_bytes (Expr.alike_eval c h hv hv')

end Table

/-! ### Code -/

namespace Reading

/-- An operand is stored in its own fields, whatever else has been read. -/
theorem addOperand_eq (c : Context) (kind : OperandKind) (operand : Operand Argument) {r : Reading}
    (hvalue : r.value = 0) (hunresolved : r.unresolved = false) (hsize : r.operandSize = 0) :
    addOperand c kind operand r
      = ({ r with
            value := (addOperand c kind operand {}).1.value
            unresolved := (addOperand c kind operand {}).1.unresolved
            operandSize := (addOperand c kind operand {}).1.operandSize
            size := r.size + (addOperand c kind operand {}).1.size },
          (addOperand c kind operand {}).2) := by
  obtain ⟨label, equate, value, unresolved, instruction, operandSize, data, size, code, status⟩ := r
  dsimp only at hvalue hunresolved hsize
  subst hvalue hunresolved hsize
  cases operand with
  | broken b => rfl
  | read argument =>
    cases argument with
    | none => rfl
    | register term =>
      unfold addOperand addRegister
      dsimp only
      cases term.eval c (registerClass kind) with
      | error d => rfl
      | ok v => dsimp only; split <;> rfl
    | expression e =>
      unfold addOperand addExpression
      dsimp only
      cases e.eval c with
      | error d => rfl
      | ok v =>
        dsimp only
        split
        · split <;> rfl
        · split <;> rfl
        · rfl

/-- Items are read without an error exactly if each has its bytes, and these are appended. -/
theorem addItems_eq_ok_iff {c : Context} {items : List Item} {r r' : Reading} :
    addItems c items r = (r', none) ↔
      ∃ bs : List (List UInt8), items.map (Item.bytes c) = bs.map Except.ok ∧
        r.append bs.flatten = r' := by
  induction items generalizing r with
  | nil =>
    constructor
    · intro h
      obtain rfl := (Prod.mk.inj h).1
      exact ⟨[], rfl, append_nil r⟩
    · rintro ⟨bs, hbs, rfl⟩
      obtain rfl := List.map_eq_nil_iff.mp hbs.symm
      show (r, none) = (r.append [], none)
      rw [append_nil]
  | cons item items ih =>
    rw [addItems, List.map_cons]
    cases item.bytes c with
    | error d =>
      -- the items break off here, and neither side holds
      constructor
      · intro h
        cases h
      · rintro ⟨bs, hbs, _⟩
        obtain ⟨_, _, _, h, _⟩ := List.map_eq_cons_iff.mp hbs.symm
        cases h
    | ok bytes =>
      dsimp only
      rw [ih]
      constructor
      · rintro ⟨bs, hbs, rfl⟩
        exact ⟨bytes :: bs, by rw [hbs, List.map_cons], (append_append ..).symm⟩
      · rintro ⟨bs, hbs, rfl⟩
        obtain ⟨b, bs, rfl, hb, hrest⟩ := List.map_eq_cons_iff.mp hbs.symm
        obtain rfl := Except.ok.inj hb
        exact ⟨bs, hrest.symm, append_append ..⟩

theorem addData_eq_ok_iff {c : Context} {list : DataList} {r r' : Reading} :
    addData c list r = (r', none) ↔
      list.fault = none ∧ ∃ bs : List (List UInt8),
        list.items.map (Item.bytes c) = bs.map Except.ok ∧ r.append bs.flatten = r' := by
  rw [← addItems_eq_ok_iff]
  unfold addData
  constructor
  · intro h
    split at h
    · cases h
    · rename_i r₁ hr₁
      obtain ⟨rfl, hfault⟩ := Prod.mk.inj h
      exact ⟨Option.map_eq_none_iff.mp hfault, hr₁⟩
  · rintro ⟨hfault, hr⟩
    rw [hr, hfault]
    rfl

/-- The reading of an instruction without data, from that of its operand. -/
def withOperand (r : Reading) (i : Instruction) (x : Reading) : Reading :=
  { r with
    instruction := some i
    value := x.value
    unresolved := x.unresolved
    operandSize := x.operandSize
    size := i.size + x.size }

/-- An instruction is read without an error exactly if its operand and its data are. -/
theorem addInstruction_eq_ok_iff {c : Context} {i : Instruction} {argument : Argument}
    {list : DataList} {label : Option Text} {r' : Reading} :
    addInstruction c i (.read argument) list { label } = (r', none) ↔
      ∃ x, addOperand c i.operand (.read argument) {} = (x, none) ∧
        addData c list (withOperand { label } i x) = (r', none) := by
  unfold addInstruction
  rw [addOperand_eq c i.operand (.read argument) rfl rfl rfl]
  cases addOperand c i.operand (.read argument) {} with
  | mk x e =>
  cases e with
  | none =>
    constructor
    · exact fun h => ⟨x, rfl, h⟩
    · rintro ⟨x', hx', h⟩
      obtain rfl := (Prod.mk.inj hx').1
      exact h
  | some d =>
    constructor
    · exact nofun
    · rintro ⟨x', hx', _⟩
      cases hx'

end Reading

namespace Operation

/-- The parts of a statement with this operation. -/
def parts : Operation → List Part
  | .data list => list.items.map .item
  | .instruction i (.read argument) list => .opcode i argument :: list.items.map .item
  | _ => []

/-- Nothing is wrong with the text behind the parts. -/
def whole : Operation → Bool
  | .data list => list.fault.isNone
  | .instruction _ (.read _) list => list.fault.isNone
  | _ => false

/-- The items of the data list, if there is one. -/
def items : Operation → List Item
  | .data list | .instruction _ _ list => list.items
  | _ => []

end Operation

namespace Shape

/-- Code comes from a statement that was resolved to its end. -/
theorem code_resolve_eq_iff_progress {c : Context} {s : Shape} {code : List UInt8}
    (hne : code ≠ []) :
    (s.resolve c).code = code ↔
      ∃ r, s.progress c = (r, none) ∧
        Reading.encode { r with status := s.operation.status } = code := by
  have hcode := (sameHead_progress c s).code
  rw [resolve_eq_settle]
  cases hp : s.progress c with
  | mk r e =>
  rw [hp] at hcode
  cases e with
  | none =>
    constructor
    · exact fun h => ⟨r, rfl, h⟩
    · rintro ⟨r', hr', h⟩
      obtain rfl := (Prod.mk.inj hr').1
      exact h
  | some d =>
    constructor
    · intro h
      exact absurd (h.symm.trans hcode) hne
    · rintro ⟨r', hr', _⟩
      cases hr'

/-- **The code of a statement is the bytes of its parts**, if it has any code. -/
theorem code_resolve_eq_iff {c : Context} {s : Shape} {code : List UInt8} (hne : code ≠ []) :
    (s.resolve c).code = code ↔
      s.operation.whole = true ∧ ∃ bs : List (List UInt8),
        s.operation.parts.map (Part.bytes c) = bs.map Except.ok ∧ bs.flatten = code := by
  rw [code_resolve_eq_iff_progress hne]
  unfold progress
  cases hop : s.operation with
  | data list =>
    -- data have the items as their parts
    dsimp only
    constructor
    · rintro ⟨r, hr, rfl⟩
      obtain ⟨hfault, bs, hbs, rfl⟩ := Reading.addData_eq_ok_iff.mp hr
      refine ⟨Option.isNone_iff_eq_none.mpr hfault, bs, ?_, rfl⟩
      rw [← hbs]
      exact List.map_map
    · rintro ⟨hfault, bs, hbs, rfl⟩
      have hitems : list.items.map (Item.bytes c) = bs.map Except.ok :=
        List.map_map.symm.trans hbs
      exact ⟨_, Reading.addData_eq_ok_iff.mpr
        ⟨Option.isNone_iff_eq_none.mp hfault, bs, hitems, rfl⟩, rfl⟩
  | instruction i operand list =>
    cases operand with
    | broken b =>
      constructor
      · rintro ⟨r, hr, _⟩
        cases hr
      · rintro ⟨hwhole, _⟩
        cases hwhole
    | read argument =>
      -- an instruction has its opcode as the first part, and the items behind it
      dsimp only
      constructor
      · rintro ⟨r, hr, rfl⟩
        obtain ⟨x, hx, hr⟩ := Reading.addInstruction_eq_ok_iff.mp hr
        obtain ⟨hfault, bs, hbs, rfl⟩ := Reading.addData_eq_ok_iff.mp hr
        refine ⟨Option.isNone_iff_eq_none.mpr hfault,
          (UInt8.ofNat (i.encode x.value) :: x.operandBytes) :: bs, ?_, rfl⟩
        rw [Operation.parts, List.map_cons, List.map_cons, ← hbs,
          Part.bytes_opcode_eq_ok_iff.mpr ⟨x, hx, rfl⟩, List.map_map]
        rfl
      · rintro ⟨hfault, bs, hbs, rfl⟩
        obtain ⟨b, bs, rfl, hb, hitems⟩ := List.map_eq_cons_iff.mp hbs.symm
        obtain ⟨x, hx, rfl⟩ := Part.bytes_opcode_eq_ok_iff.mp hb.symm
        have hitems : list.items.map (Item.bytes c) = bs.map Except.ok :=
          List.map_map.symm.trans hitems.symm
        refine ⟨(Reading.withOperand { label := s.label } i x).append bs.flatten,
          Reading.addInstruction_eq_ok_iff.mpr ⟨x, hx, ?_⟩, rfl⟩
        exact Reading.addData_eq_ok_iff.mpr
          ⟨Option.isNone_iff_eq_none.mp hfault, bs, hitems, rfl⟩
  | _ =>
    -- nothing else has code
    constructor
    · rintro ⟨r, _, rfl⟩
      exact absurd rfl hne
    · rintro ⟨hwhole, _⟩
      cases hwhole

variable {c : Context} {t : SymbolTable}

/-- Part by part, the bytes are as many in both tables. -/
theorem map_length_bytes (hsome : ∀ n, (t.lookup n).isSome = (c.symbols.lookup n).isSome)
    {parts : List Part} {bs bs' : List (List UInt8)}
    (h : parts.map (Part.bytes { c with symbols := t }) = bs.map Except.ok)
    (h' : parts.map (Part.bytes c) = bs'.map Except.ok) :
    bs.map List.length = bs'.map List.length := by
  induction parts generalizing bs bs' with
  | nil =>
    rw [List.map_eq_nil_iff.mp h.symm, List.map_eq_nil_iff.mp h'.symm]
  | cons part rest ih =>
    obtain ⟨b, bs, rfl, hb, hbs⟩ := List.map_eq_cons_iff.mp h.symm
    obtain ⟨b', bs', rfl, hb', hbs'⟩ := List.map_eq_cons_iff.mp h'.symm
    rw [List.map_cons, List.map_cons, ih hbs.symm hbs'.symm,
      Part.length_bytes c (fun n _ => hsome n) hb.symm hb'.symm]

/-- **With other values in the table a statement has the same code exactly if each of its parts has
the same bytes.** -/
theorem code_resolve_iff_bytes {s : Shape}
    (hsome : ∀ n, (t.lookup n).isSome = (c.symbols.lookup n).isSome)
    (hne : (s.resolve c).code ≠ []) :
    (s.resolve { c with symbols := t }).code = (s.resolve c).code ↔
      ∀ part ∈ s.operation.parts, part.bytes { c with symbols := t } = part.bytes c := by
  obtain ⟨hwhole, bs, hbs, hflatten⟩ := (code_resolve_eq_iff hne).mp rfl
  rw [code_resolve_eq_iff hne, ← List.map_inj_left]
  constructor
  · -- two rows of lists with the same lengths and the same bytes are the same
    rintro ⟨_, bs', hbs', hflatten'⟩
    have hsame : bs' = bs := List.eq_iff_flatten_eq.mpr
      ⟨hflatten'.trans hflatten.symm, map_length_bytes hsome hbs' hbs⟩
    rw [hbs', hbs, hsame]
  · intro h
    exact ⟨hwhole, bs, h.trans hbs, hflatten⟩

end Shape

/-! ### Readings without an error -/

section Readings

variable {c : Context} {t : Text}

/-- What is read without an error has been resolved to its end. -/
theorem Reading.exists_progress (h : (ofText c t).status.error? = none) :
    ∃ r, (Shape.read t).progress c = (r, none) ∧
      ofText c t = settle (Shape.read t).operation.status (r, none) := by
  unfold ofText at h ⊢
  rw [Shape.error_resolve] at h
  have hprogress : (Shape.read t).progress c = (((Shape.read t).progress c).1, none) :=
    Prod.ext rfl h
  refine ⟨_, hprogress, ?_⟩
  rw [Shape.resolve_eq_settle, ← hprogress]

/-- **What an instruction is read as**: its operand is stored and the bytes of its items are
added. -/
theorem Reading.exists_of_instruction (h : (ofText c t).status = .instruction) :
    ∃ i argument list x, ∃ bs : List (List UInt8),
      (Shape.read t).operation = .instruction i (.read argument) list ∧
      addOperand c i.operand (.read argument) {} = (x, none) ∧
      list.items.map (Item.bytes c) = bs.map Except.ok ∧
      ofText c t = settle .instruction
        ((withOperand { label := (Shape.read t).label } i x).append bs.flatten, none) := by
  obtain ⟨r, hr, heq⟩ := exists_progress (by rw [h]; rfl)
  rw [heq] at h
  have h : (Shape.read t).operation.status = .instruction := h
  unfold Shape.progress at hr
  cases hop : (Shape.read t).operation with
  | instruction i operand list =>
    rw [hop] at hr heq
    cases operand with
    | broken b => cases hr
    | read argument =>
      obtain ⟨x, hx, hr⟩ := addInstruction_eq_ok_iff.mp hr
      obtain ⟨_, bs, hbs, rfl⟩ := addData_eq_ok_iff.mp hr
      exact ⟨i, argument, list, x, bs, rfl, hx, hbs, heq⟩
  | _ =>
    rw [hop] at h
    cases h

end Readings

end Cosmac
