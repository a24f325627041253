import Cosmac.Proofs.Emission

/-!
# Two readings of one statement

Both passes read the same texts, each with a location counter and a symbol table of its own, and
they can only work together if they find the same statements.  What they find alike:

* the label, whether the statement is an equate, and whether it is empty, a page or the end of the
  program, all of it even if one of them finds an error (`Reading.SameForm`);
* without errors also the status, the instruction and the bytes of its operand
  (`Reading.SameCode`);
* and the size, with one exception: a data item that is a name alone, of three or four hexadecimal
  digits, takes two bytes as a number and one byte as a symbol (`Item.IsWideName`).

The main statement is `Reading.two_readings_agree`.
-/

namespace Cosmac

/-! ### Data items -/

/-- The item is the name alone, without offset or form, and the name is a number of three or four
hexadecimal digits. -/
structure Item.IsWideName (item : Item) (w : Text) : Prop where
  /-- Nothing but the name. -/
  bare : item = .expression ⟨.plain, .name w, none⟩
  /-- The name can be read as a number. -/
  hex : Token.IsHex w
  /-- The number has more than two digits. -/
  wide : 3 ≤ w.length

/-- A hexadecimal number of one or two digits is a byte. -/
theorem Token.length_of_number {w : Text} (h : Token.IsHex w) (hlarge : 255 < Token.number 16 w) :
    3 ≤ w.length := by
  have hlt : Token.number 16 w < 16 ^ w.length :=
    Token.number_lt fun c hc => digitValue_of_isHexDigit (List.all_eq_true.mp h.2.2 c hc)
  by_contra hshort
  have hpow : (16 : Nat) ^ w.length ≤ 16 ^ 2 := Nat.pow_le_pow_right (by omega) (by omega)
  omega

/-- The bytes that a name takes if it is no symbol. -/
def Token.wordSize (w : Text) : Int :=
  if Token.isHexWord w then Token.width (Token.number 16 w) else 1

section Items

variable {c c' : Context}

/-- **A symbol takes one byte, and any other name what its spelling says.** -/
theorem Context.size_nameValue {w : Text} {v : Value} (h : c.nameValue w = .ok v) :
    v.size = if c.symbols.contains w then 1 else Token.wordSize w := by
  have hundefined : ∀ {v : Value}, c.undefined w = .ok v → v.size = 1 := by
    intro v h
    unfold Context.undefined at h
    split_ifs at h
    obtain rfl := Except.ok.inj h
    rfl
  unfold nameValue at h
  unfold SymbolTable.contains Token.wordSize
  cases hlookup : c.symbols.lookup w with
  | some s =>
    rw [hlookup] at h
    dsimp only at h
    rw [Option.isSome_some, if_pos rfl]
    split at h
    · obtain rfl := Except.ok.inj h
      rfl
    · exact hundefined h
  | none =>
    rw [hlookup] at h
    dsimp only at h
    rw [Option.isSome_none, if_neg Bool.false_ne_true]
    split_ifs at h ⊢
    · obtain rfl := Except.ok.inj h
      rfl
    · exact hundefined h

theorem Token.isHex_of_wordSize {w : Text} (hname : w.IsName) (h : Token.wordSize w ≠ 1) :
    Token.IsHex w ∧ 3 ≤ w.length := by
  unfold wordSize width at h
  split_ifs at h with hword hlarge
  · have hhex := (isHexWord_of_isName hname).mp hword
    exact ⟨hhex, length_of_number hhex hlarge⟩
  · exact absurd rfl h
  · exact absurd rfl h

/-- **Where an expression takes more bytes than elsewhere, it is a name** that is in one table and
not in the other. -/
theorem Expr.size_ne {e : Expr} (htidy : e.term.Tidy) {v v' : Value} (hv : e.eval c = .ok v)
    (hv' : e.eval c' = .ok v') (hne : v.size ≠ v'.size) :
    ∃ w, (Item.expression e).IsWideName w ∧ c.symbols.contains w ≠ c'.symbols.contains w := by
  obtain ⟨selector, term, offset⟩ := e
  unfold eval at hv hv'
  dsimp only at hv hv' htidy
  cases hw : term.eval c with
  | error d => simp [hw] at hv
  | ok u =>
  cases hw' : term.eval c' with
  | error d => simp [hw'] at hv'
  | ok u' =>
  rw [hw] at hv
  rw [hw'] at hv'
  obtain rfl := Except.ok.inj hv
  obtain rfl := Except.ok.inj hv'
  -- a form and an offset fix the number of bytes
  cases selector with
  | address | low | high => exact absurd rfl hne
  | plain =>
  cases offset with
  | some n => exact absurd rfl hne
  | none =>
  cases term with
  | here | constant | character =>
    obtain rfl := Except.ok.inj hw
    obtain rfl := Except.ok.inj hw'
    exact absurd rfl hne
  | name w =>
    have hsize := Context.size_nameValue hw
    have hsize' := Context.size_nameValue hw'
    have hne : u.size ≠ u'.size := hne
    have hcontains : c.symbols.contains w ≠ c'.symbols.contains w := by
      intro heq
      rw [heq] at hsize
      exact hne (hsize.trans hsize'.symm)
    have hword : Token.wordSize w ≠ 1 := by
      intro hone
      rw [hone, ite_self] at hsize hsize'
      exact hne (hsize.trans hsize'.symm)
    obtain ⟨hhex, hwide⟩ := Token.isHex_of_wordSize htidy hword
    exact ⟨w, ⟨rfl, hhex, hwide⟩, hcontains⟩

theorem Item.length_ne {item : Item} (htidy : item.Tidy) {b b' : List UInt8}
    (hb : item.bytes c = .ok b) (hb' : item.bytes c' = .ok b') (hne : b.length ≠ b'.length) :
    ∃ w, item.IsWideName w ∧ c.symbols.contains w ≠ c'.symbols.contains w := by
  cases item with
  | string text =>
    obtain rfl := Except.ok.inj hb
    obtain rfl := Except.ok.inj hb'
    exact absurd rfl hne
  | expression e =>
    obtain ⟨v, hv, rfl⟩ := Item.bytes_expression_eq_ok hb
    obtain ⟨v', hv', rfl⟩ := Item.bytes_expression_eq_ok hb'
    refine Expr.size_ne htidy hv hv' fun hsize => hne ?_
    unfold Value.bytes
    rw [hsize]
    split_ifs <;> rfl

/-- The bytes of all items are equally many if those of each are. -/
theorem Item.exists_length_ne {items : List Item} {bs bs' : List (List UInt8)}
    (hb : items.map (Item.bytes c) = bs.map Except.ok)
    (hb' : items.map (Item.bytes c') = bs'.map Except.ok)
    (hne : bs.flatten.length ≠ bs'.flatten.length) :
    ∃ item ∈ items, ∃ b b', item.bytes c = .ok b ∧ item.bytes c' = .ok b' ∧
      b.length ≠ b'.length := by
  induction items generalizing bs bs' with
  | nil =>
    obtain rfl := List.map_eq_nil_iff.mp hb.symm
    obtain rfl := List.map_eq_nil_iff.mp hb'.symm
    exact absurd rfl hne
  | cons item rest ih =>
    obtain ⟨b, bs, rfl, hitem, hbs⟩ := List.map_eq_cons_iff.mp hb.symm
    obtain ⟨b', bs', rfl, hitem', hbs'⟩ := List.map_eq_cons_iff.mp hb'.symm
    by_cases hlength : b.length = b'.length
    · have hrest : bs.flatten.length ≠ bs'.flatten.length := by
        intro heq
        simp only [List.flatten_cons, List.length_append] at hne
        omega
      obtain ⟨other, hmem, hother⟩ := ih hbs.symm hbs'.symm hrest
      exact ⟨other, List.mem_cons_of_mem _ hmem, hother⟩
    · exact ⟨item, List.mem_cons_self .., b, b', hitem.symm, hitem'.symm, hlength⟩

theorem Operation.Tidy.items {operation : Operation} (h : operation.Tidy) :
    ∀ item ∈ operation.items, item.Tidy := by
  cases operation with
  | data list => exact DataList.Tidy.items h
  | instruction i operand list => exact DataList.Tidy.items h.2
  | _ => exact fun _ hitem => absurd hitem List.not_mem_nil

end Items

/-! ### Statements -/

namespace Reading

/-- What two readings of one text have in common, errors or not. -/
structure SameForm (r r' : Reading) : Prop where
  /-- The label. -/
  label : r.label = r'.label
  /-- Whether the statement is an equate. -/
  equate : r.equate = r'.equate
  /-- Whether it is empty or a label alone, a page, or the end of the program. -/
  bare : ∀ status ∈ [Status.nop, .page, .finish], r.status = status ↔ r'.status = status

/-- What two readings of one text have in common if both are without an error. -/
structure SameCode (r r' : Reading) : Prop where
  /-- The status. -/
  status : r.status = r'.status
  /-- The instruction, with its mnemonic. -/
  instruction : r.instruction = r'.instruction
  /-- The bytes of the operand. -/
  operandSize : r.operandSize = r'.operandSize

variable {c c' : Context} {t : Text}

theorem sameForm_ofText (c c' : Context) (t : Text) : SameForm (ofText c t) (ofText c' t) where
  label := (Shape.label_resolve c _).trans (Shape.label_resolve c' _).symm
  equate := (Shape.equate_resolve c _).trans (Shape.equate_resolve c' _).symm
  bare := by
    have hbare : ∀ o : Operation, o = .empty ∨ o = .page ∨ o = .finish →
        ((ofText c t).status = o.status ↔ (ofText c' t).status = o.status) := by
      intro o ho
      exact (Shape.status_resolve_eq_iff c _ ho).trans (Shape.status_resolve_eq_iff c' _ ho).symm
    simp only [List.forall_mem_cons]
    exact ⟨hbare .empty (by simp), hbare .page (by simp), hbare .finish (by simp),
      List.forall_mem_nil _⟩

theorem status_ofText (h : (ofText c t).status.error? = none) :
    (ofText c t).status = (Shape.read t).operation.status := by
  obtain ⟨r, _, heq⟩ := exists_progress h
  rw [heq]
  rfl

/-- Only an instruction has an operand. -/
theorem operandSize_eq_zero (h : (Shape.read t).operation.instruction? = none) :
    (ofText c t).operandSize = 0 := by
  have hsettle : ∀ (status : Status) (p : Progress), p.1.operandSize = 0 →
      (settle status p).operandSize = 0 := by
    rintro status ⟨r, d⟩ hr
    cases d <;> exact hr
  have hlast : ∀ (operand : Operand Expr) (fault : Option Kind) (r : Reading),
      r.operandSize = 0 → (addLast c operand fault r).1.operandSize = 0 := by
    intro operand fault r hr
    rcases addLast_cases c operand fault r with heq | ⟨v, heq⟩ <;> rw [heq] <;> exact hr
  unfold ofText
  rw [Shape.resolve_eq_settle]
  apply hsettle
  unfold Shape.progress
  cases hop : (Shape.read t).operation with
  | instruction => simp [hop, Operation.instruction?] at h
  | data list => simp [addData_eq, append]
  | equate operand fault => exact hlast _ _ _ rfl
  | origin operand fault => exact hlast _ _ _ rfl
  | empty | page | finish | malformed => rfl

theorem sameCode_ofText (h : (ofText c t).status.error? = none)
    (h' : (ofText c' t).status.error? = none) : SameCode (ofText c t) (ofText c' t) where
  status := (status_ofText h).trans (status_ofText h').symm
  instruction := (Shape.instruction_resolve c _).trans (Shape.instruction_resolve c' _).symm
  operandSize := by
    cases hi : (Shape.read t).operation.instruction? with
    | none => rw [operandSize_eq_zero hi, operandSize_eq_zero hi]
    | some i =>
      have hstatus : (Shape.read t).operation.status = .instruction := by
        cases hop : (Shape.read t).operation with
        | instruction => rfl
        | _ => simp [hop, Operation.instruction?] at hi
      -- the operand is the same, and its bytes are told by its form
      obtain ⟨i₁, argument, list, _, _, hop, hcoded⟩ :=
        exists_isCoded ((status_ofText h).trans hstatus)
      obtain ⟨i₂, argument', list', _, _, hop', hcoded'⟩ :=
        exists_isCoded ((status_ofText h').trans hstatus)
      rw [hop] at hop'
      cases hop'
      have hroom := hcoded.room.trans hcoded'.room.symm
      omega

/-- Equally many bytes of data are equally many bytes in all. -/
theorem size_eq_of_data (h : (ofText c t).status.error? = none)
    (h' : (ofText c' t).status.error? = none)
    (hdata : (ofText c t).data.length = (ofText c' t).data.length) :
    (ofText c t).size = (ofText c' t).size := by
  have hsame := sameCode_ofText h h'
  by_cases hi : (ofText c t).status = .instruction
  · obtain ⟨_, _, _, _, _, _, hcoded⟩ := exists_isCoded hi
    obtain ⟨_, _, _, _, _, _, hcoded'⟩ := exists_isCoded (hsame.status.symm.trans hi)
    rw [hcoded.size, hcoded'.size, hsame.operandSize, hdata]
  · have hi' : (ofText c' t).status ≠ .instruction := by
      rwa [← hsame.status]
    rw [size_eq_length_data h hi, size_eq_length_data h' hi', hdata]

/-- **The form of a statement is told by its text alone.**  In any two contexts it has the same
label, and is the same equate, empty statement, page or end of the program.  Without errors it is
also the same instruction with an operand of as many bytes, and it takes as much room, unless one of
its data items is a name alone, of three or four hexadecimal digits, that is a symbol in one context
and not in the other. -/
theorem two_readings_agree (t : Text) (c c' : Context) :
    SameForm (ofText c t) (ofText c' t) ∧
    ((ofText c t).status.error? = none → (ofText c' t).status.error? = none →
      SameCode (ofText c t) (ofText c' t) ∧
      ((ofText c t).size ≠ (ofText c' t).size →
        ∃ item ∈ (Shape.read t).operation.items, ∃ w, item.IsWideName w ∧
          c.symbols.contains w ≠ c'.symbols.contains w)) := by
  refine ⟨sameForm_ofText c c' t, fun h h' => ⟨sameCode_ofText h h', fun hsize => ?_⟩⟩
  obtain ⟨bs, hbs, hdata⟩ := exists_data h
  obtain ⟨bs', hbs', hdata'⟩ := exists_data h'
  have hlength : bs.flatten.length ≠ bs'.flatten.length := by
    intro heq
    refine hsize (size_eq_of_data h h' ?_)
    rw [hdata, hdata', heq]
  obtain ⟨item, hitem, b, b', hb, hb', hne⟩ := Item.exists_length_ne hbs hbs' hlength
  exact ⟨item, hitem, Item.length_ne ((Shape.tidy_read t).items item hitem) hb hb' hne⟩

/-- Where `BEEF` is a symbol it takes one byte, and two where it is a number. -/
theorem two_readings_agree_hex_name :
    let c : Context := {}
    let c' : Context := { symbols := ⟨[{ name := "BEEF".toList, value := some 0 }]⟩ }
    let t := "L: LDI X,BEEF".toList
    (ofText c t).size = 4 ∧ (ofText c' t).size = 3 ∧
      SameCode (ofText c t) (ofText c' t) ∧
      ∃ item ∈ (Shape.read t).operation.items, ∃ w, item.IsWideName w ∧
        c.symbols.contains w ≠ c'.symbols.contains w := by
  intro c c' t
  have hagree := (two_readings_agree t c c').2 (by decide +kernel) (by decide +kernel)
  exact ⟨by decide +kernel, by decide +kernel, hagree.1, hagree.2 (by decide +kernel)⟩

end Reading

end Cosmac
