import Cosmac.Proofs.Decoding
import Cosmac.Proofs.Extension
import Cosmac.Proofs.Spelling

/-!
# The grammar of statements

Which texts are statements, as inductive relations on the text that know nothing of the readers:

* `Text.IsDataList`: strings and expressions with commas between them;
* `Text.IsOperand`, `Text.IsTrailer`: the operand that an instruction takes, and the data that may
  stand behind it;
* `Text.IsOperands`: what a directive or an instruction wants behind its name;
* `Text.IsStatement`: a label, an equate or an operation behind blanks and semicolons, with the
  status, the label and the mnemonic that the production gives it.

The symbol table enters in one place only.  A register is a single token, and a token that names a
symbol may stand for any value, where a constant and an unknown hex word may not
(`RegisterTerm.Admissible`).

The main statement is `Reading.isStatement_iff`: the first pass finds no error in a text exactly if
the grammar derives it.  The proof goes through the form of a statement.  In the first pass, no
name is undefined and no branch is checked, so the form and the registers decide alone
(`Shape.error_resolve_first`); and a form that is accepted is read from the texts of the grammar
and from no others (`Shape.conforms_of_isStatement`, `Shape.isStatement_of_read`), one reader after
the other, each with an equivalence of its own.
-/

namespace Cosmac

/-! ### Data lists -/

namespace Text

/-- An item of a data list: a string or an expression. -/
inductive IsItem : Text → Prop
  /-- A string. -/
  | string {p s : Text} (h : Token.Spells p (.string s)) : IsItem p
  /-- An expression. -/
  | expression {p : Text} {e : Expr} (h : Expr.Spells p e) : IsItem p

/-- Items with commas between them, and blanks around each. -/
inductive IsDataList : Text → Prop
  /-- The last item. -/
  | last {b p b' : Text} (hbefore : b.Blanks) (hitem : p.IsItem) (hafter : b'.Blanks) :
      IsDataList (b ++ (p ++ b'))
  /-- An item before others. -/
  | cons {b p b' list : Text} (hbefore : b.Blanks) (hitem : p.IsItem) (hafter : b'.Blanks)
      (hlist : IsDataList list) : IsDataList (b ++ (p ++ (b' ++ ',' :: list)))

/-- An item starts as a term does. -/
theorem IsItem.begins {p : Text} (h : p.IsItem) : p.Begins := by
  cases h with
  | string h => exact (Term.Spells.character h).begins
  | expression h => exact h.begins

theorem Blanks.skipSpaces_eq {b : Text} (h : b.Blanks) : skipSpaces b = [] :=
  List.dropWhile_eq_nil_iff.mpr h

theorem Blanks.closes {b : Text} (h : b.Blanks) : b.Closes := by
  intro c hc
  rcases isSpace_iff.mp (h c (List.mem_of_mem_head? hc)) with rfl | rfl <;> decide

/-- Blanks and a comma close an item. -/
theorem Blanks.closes_comma {b : Text} (h : b.Blanks) (t : Text) : Closes (b ++ ',' :: t) :=
  Expr.forall_head_append h.closes fun c hc => by
    obtain rfl := Option.some.inj hc
    decide

end Text

/-- The letter of a form is scanned as a name. -/
theorem Expr.Opens.next {o : Text} {selector : Selector} (h : Opens o selector) (inside : Text) :
    ∃ w rest, Token.next (o ++ inside) = (.word w, rest) := by
  have hletter : ∀ {a d : Char} (t : Text), a.toUpper = 'A' → d ∈ Text.marks → d ≠ '\'' →
      ∃ w rest, Token.next (a :: d :: t) = (.word w, rest) := by
    intro a d t ha hmark hquote
    have halpha : a.isAlpha = true := isAlpha_of_toUpper_eq ha
    have hname : (Text.upper [a]).IsName := by
      rw [Token.upper_cons halpha, ha]
      decide
    exact ⟨_, _, Token.next_of_spells (Token.Spells.word halpha (List.forall_mem_nil _) hname)
      (Text.stops_of_mark hmark hquote t)⟩
  cases h with
  | address h => exact hletter _ h (by decide) (by decide)
  | low h => exact hletter _ h (by decide) (by decide)
  | high h => exact hletter _ h (by decide) (by decide)

/-- An expression that is scanned as a string is the string, unless an offset follows it. -/
theorem Expr.Spells.eq_of_string {p rest s behind : Text} {e : Expr} (h : Expr.Spells p e)
    (hrest : rest.Closes) (hnext : Token.next (p ++ rest) = (.string s, behind)) :
    behind = rest ∨ Item.startsWithSign behind = true := by
  cases h with
  | @plain p q term offset hterm hoffset =>
    -- the scanner takes the whole term, and the offset is left
    have hbehind : behind = q ++ rest := by
      have htoken : ∀ {token : Token}, Token.Spells p token → behind = q ++ rest := by
        intro token htoken
        rw [List.append_assoc, Token.next_of_spells htoken (hoffset.stops hrest.stops)] at hnext
        exact (Prod.mk.inj hnext).2.symm
      cases hterm with
      | here =>
        have hstar : Token.next ('*' :: (q ++ rest)) = (.empty, '*' :: (q ++ rest)) :=
          Token.next_mark (Text.isWordChar_of_mem_marks (by decide)) (by decide) _
        cases (Prod.mk.inj (hstar.symm.trans hnext)).1
      | constant h => exact htoken h
      | character h => exact htoken h
      | name h => exact htoken h
    subst hbehind
    cases hoffset with
    | nothing => exact Or.inl rfl
    | plus => exact Or.inr rfl
    | minus => exact Or.inr rfl
  | form hopen =>
    simp only [List.append_assoc] at hnext
    obtain ⟨w, rest', hword⟩ := hopen.next (_ ++ (_ ++ (_ ++ (_ ++ ([')'] ++ rest)))))
    rw [hword] at hnext
    cases (Prod.mk.inj hnext).1

namespace Item

/-- What closes an item is no sign. -/
theorem startsWithSign_of_closes {rest : Text} (h : rest.Closes) : startsWithSign rest = false := by
  unfold startsWithSign
  split
  · exact absurd (h '+' rfl) (by decide)
  · exact absurd (h '-' rfl) (by decide)
  · rfl

theorem read_of_spells {p s rest : Text} (h : Token.Spells p (.string s)) (hrest : rest.Closes) :
    Item.read (p ++ rest) = (.ok (.string s), rest) := by
  unfold Item.read
  rw [Token.next_of_spells h hrest.stops]
  dsimp only
  rw [startsWithSign_of_closes hrest]
  rfl

/-- **A spelled item is read.** -/
theorem read_of_isItem {p rest : Text} (h : p.IsItem) (hrest : rest.Closes) :
    ∃ item, Item.read (p ++ rest) = (.ok item, rest) := by
  cases h with
  | @string s h => exact ⟨.string s, read_of_spells h hrest⟩
  | @expression e h =>
    have hexpression : readExpression (p ++ rest) = (.ok (.expression e), rest) := by
      unfold readExpression
      rw [show p ++ rest = [] ++ (p ++ rest) from rfl, Expr.read_of_spells Text.blanks_nil h hrest]
    unfold Item.read
    -- an expression may start with a string, and is one only if no sign follows
    split
    · rename_i s behind hnext
      split_ifs with hsign
      · exact ⟨_, hexpression⟩
      · rcases h.eq_of_string hrest hnext with rfl | hsign'
        · exact ⟨_, rfl⟩
        · exact absurd hsign' hsign
    · exact ⟨_, hexpression⟩

/-- An expression that is read as an item was spelled. -/
theorem isItem_of_readExpression {t rest : Text} {item : Item}
    (h : readExpression t = (.ok item, rest)) :
    ∃ b p, b.Blanks ∧ t = b ++ (p ++ rest) ∧ p.IsItem := by
  unfold readExpression at h
  split at h <;> rename_i hread
  · cases (Prod.mk.inj h).1
  · obtain ⟨_, rfl⟩ := Prod.mk.inj h
    obtain ⟨b, p, hb, ht, hspells⟩ := Expr.spells_of_read hread
    exact ⟨b, p, hb, ht, .expression hspells⟩

/-- **An item that is read was spelled.** -/
theorem isItem_of_read {t rest : Text} {item : Item} (h : Item.read t = (.ok item, rest)) :
    ∃ b p, b.Blanks ∧ t = b ++ (p ++ rest) ∧ p.IsItem := by
  unfold Item.read at h
  split at h
  · rename_i hnext
    split_ifs at h
    · exact isItem_of_readExpression h
    · obtain ⟨_, rfl⟩ := Prod.mk.inj h
      obtain ⟨p, ht, hspells, _⟩ := Token.spells_of_next hnext nofun rfl
      exact ⟨[], p, Text.blanks_nil, ht, .string hspells⟩
  · exact isItem_of_readExpression h

end Item

namespace DataList

/-- Without anything behind it, an item is the last. -/
theorem read_last {t rest : Text} {item : Item}
    (hitem : Item.read (Text.skipSpaces t) = (.ok item, rest)) (hend : Text.skipSpaces rest = []) :
    DataList.read t = ⟨[item], none⟩ := by
  rw [DataList.read]
  split <;> rename_i hread
  · rw [hitem] at hread
    cases (Prod.mk.inj hread).1
  · rw [hitem] at hread
    obtain ⟨rfl, rfl⟩ := read_inj hread
    split <;> rename_i hbehind
    · rfl
    · rw [hend] at hbehind
      cases hbehind

/-- Behind a comma the list goes on. -/
theorem read_cons {t rest list : Text} {item : Item}
    (hitem : Item.read (Text.skipSpaces t) = (.ok item, rest))
    (hcomma : Text.skipSpaces rest = ',' :: list) :
    DataList.read t = (DataList.read list).cons item := by
  conv_lhs => rw [DataList.read]
  split <;> rename_i hread
  · rw [hitem] at hread
    cases (Prod.mk.inj hread).1
  · rw [hitem] at hread
    obtain ⟨rfl, rfl⟩ := read_inj hread
    split <;> rename_i hbehind <;> rw [hcomma] at hbehind
    · cases hbehind
    · obtain ⟨rfl, rfl⟩ := List.cons.inj hbehind
      rfl

/-- **A data list is read without a fault exactly if it is one.** -/
theorem isDataList_iff (t : Text) : t.IsDataList ↔ (DataList.read t).fault = none := by
  constructor
  · intro h
    -- the induction is on the list as it is written; the other way it is on the calls of the reader
    induction h with
    | @last b p b' hbefore hitem hafter =>
      obtain ⟨item, hread⟩ := Item.read_of_isItem hitem hafter.closes
      rw [← (hitem.begins.append b').skipSpaces_append hbefore] at hread
      rw [read_last hread hafter.skipSpaces_eq]
    | @cons b p b' list hbefore hitem hafter hlist ih =>
      obtain ⟨item, hread⟩ := Item.read_of_isItem hitem (hafter.closes_comma list)
      rw [← (hitem.begins.append (b' ++ ',' :: list)).skipSpaces_append hbefore] at hread
      rw [read_cons hread ?_]
      · exact ih
      · rw [Text.skipSpaces_append hafter]
        rfl
  · intro h
    fun_induction DataList.read t with
    | case1 t fault rest hread => cases h
    | case2 t item rest hread hend =>
      obtain ⟨b, hb, ht⟩ := Text.exists_blanks t
      obtain ⟨b', p, hb', hp, hitem⟩ := Item.isItem_of_read hread
      rw [ht, hp, ← List.append_assoc]
      exact .last (hb.append hb') hitem (Text.blanks_of_skipSpaces hend)
    | case3 t item rest hread more hbehind ih =>
      obtain ⟨b, hb, ht⟩ := Text.exists_blanks t
      obtain ⟨b', p, hb', hp, hitem⟩ := Item.isItem_of_read hread
      obtain ⟨b'', hb'', hrest⟩ := Text.exists_blanks rest
      rw [hbehind] at hrest
      rw [ht, hp, hrest, ← List.append_assoc]
      exact .cons (hb.append hb') hitem hb'' (ih h)
    | case4 t item rest hread c more hbehind hcomma => cases h

end DataList

/-- What may follow an instruction: nothing, or a comma and a data list. -/
inductive Text.IsTrailer : Text → Prop
  /-- Nothing. -/
  | nothing {b : Text} (h : b.Blanks) : IsTrailer b
  /-- Data. -/
  | data {b list : Text} (hb : b.Blanks) (h : list.IsDataList) : IsTrailer (b ++ ',' :: list)

/-- What follows an instruction is read without a fault exactly if it is nothing or data. -/
theorem DataList.isTrailer_iff (t : Text) :
    t.IsTrailer ↔ (DataList.readTrailer t).fault = none := by
  constructor
  · intro h
    cases h with
    | nothing h =>
      unfold readTrailer
      rw [h.skipSpaces_eq]
    | data hb h =>
      unfold readTrailer
      rw [Text.skipSpaces_append hb]
      exact (isDataList_iff _).mp h
  · intro h
    obtain ⟨b, hb, ht⟩ := Text.exists_blanks t
    unfold readTrailer at h
    split at h <;> rename_i hskip
    · exact .nothing (Text.blanks_of_skipSpaces hskip)
    · rw [ht, hskip]
      exact .data hb ((isDataList_iff _).mpr h)
    · cases h

theorem Text.IsTrailer.closes {t : Text} (h : t.IsTrailer) : t.Closes := by
  cases h with
  | nothing h => exact h.closes
  | data hb _ => exact hb.closes_comma _

/-! ### Registers and devices -/

namespace RegisterTerm

/-- The text spells the operand: one token. -/
inductive Spells : Text → RegisterTerm → Prop
  /-- A constant or a string. -/
  | value {p : Text} {token : Token} {n : Nat} (htoken : Token.Spells p token)
      (hvalue : token.value? = some n) : Spells p (.value n)
  /-- A name. -/
  | name {p w : Text} (htoken : Token.Spells p (.word w)) : Spells p (.name w)

/-- The operand is known to stand for 0. -/
inductive IsKnownZero (symbols : SymbolTable) : RegisterTerm → Prop
  /-- The number itself. -/
  | value : IsKnownZero symbols (.value 0)
  /-- A symbol whose low bits are 0. -/
  | symbol {w : Text} {s : Symbol} {v : Int} (hlookup : symbols.lookup w = some s)
      (hvalue : s.value = some v) (hzero : v % 16 = 0) : IsKnownZero symbols (.name w)
  /-- Register 0 by its name. -/
  | register (hlookup : symbols.lookup ['R', '0'] = none) : IsKnownZero symbols (.name ['R', '0'])
  /-- A hexadecimal zero. -/
  | hexWord {w : Text} (hlookup : symbols.lookup w = none) (hhex : Token.isHexWord w = true)
      (hzero : Token.number 16 w = 0) : IsKnownZero symbols (.name w)

/-- The greatest number that an operand of the kind may be written as. -/
def limit (kind : OperandKind) : Nat := if kind = .device then 7 else 15

/-- The operand can be taken in the first pass. -/
structure Admissible (symbols : SymbolTable) (kind : OperandKind) (term : RegisterTerm) : Prop where
  /-- A constant or the byte of a string is in range. -/
  value : ∀ n, term = .value n → n ≤ limit kind
  /-- A hexadecimal word that is no symbol is in range. -/
  hexWord : ∀ w, term = .name w → symbols.lookup w = none → Token.isHexWord w = true →
    Token.number 16 w ≤ limit kind
  /-- Where register 0 would be another instruction, it is not known to be register 0. -/
  nonzero : kind = .nonzeroRegister → ¬ term.IsKnownZero symbols

/-- **A spelled register or device is read.** -/
theorem read_of_spells {b p rest : Text} {term : RegisterTerm} (hb : b.Blanks)
    (h : Spells p term) (hrest : rest.Stops) :
    RegisterTerm.read (b ++ (p ++ rest)) = (.ok term, rest) := by
  have hscan : ∀ {token : Token}, Token.Spells p token →
      Token.next (Text.skipSpaces (b ++ (p ++ rest))) = (token, rest) := by
    intro token htoken
    rw [(htoken.begins.append rest).skipSpaces_append hb, Token.next_of_spells htoken hrest]
  unfold RegisterTerm.read
  cases h with
  | @value token n htoken hvalue =>
    rw [hscan htoken]
    cases token with
    | string | binary | decimal | hex => rw [← Option.some.inj hvalue]
    | empty | malformed | word => cases hvalue
  | name htoken => rw [hscan htoken]

theorem Spells.begins {p : Text} {term : RegisterTerm} (h : Spells p term) : p.Begins := by
  cases h with
  | value h => exact h.begins
  | name h => exact h.begins

/-- **A register or device that is read was spelled**, as a single token. -/
theorem spells_of_read {t rest : Text} {term : RegisterTerm}
    (h : RegisterTerm.read t = (.ok term, rest)) :
    ∃ b p, b.Blanks ∧ t = b ++ (p ++ rest) ∧ Spells p term := by
  obtain ⟨b, hb, ht⟩ := Text.exists_blanks t
  have hspells : ∀ {token : Token}, Token.next (Text.skipSpaces t) = (token, rest) →
      token ≠ .empty → token.error? = none →
      ∃ p, t = b ++ (p ++ rest) ∧ Token.Spells p token := by
    intro token hnext hempty herror
    obtain ⟨p, hp, htoken, _⟩ := Token.spells_of_next hnext hempty herror
    exact ⟨p, by rw [← hp, ← ht], htoken⟩
  unfold RegisterTerm.read at h
  split at h <;> rename_i hnext
  · cases (Prod.mk.inj h).1
  · cases (Prod.mk.inj h).1
  -- any token but the empty and the malformed one is taken
  all_goals
    obtain ⟨rfl, rfl⟩ := read_inj h
    obtain ⟨p, hp, htoken⟩ := hspells hnext nofun rfl
  · exact ⟨b, p, hb, hp, .value htoken rfl⟩
  · exact ⟨b, p, hb, hp, .value htoken rfl⟩
  · exact ⟨b, p, hb, hp, .value htoken rfl⟩
  · exact ⟨b, p, hb, hp, .value htoken rfl⟩
  · exact ⟨b, p, hb, hp, .name htoken⟩

/-- The bound of the evaluator is that of the grammar. -/
@[simp] theorem limit_registerClass (kind : OperandKind) :
    (Reading.registerClass kind).limit = limit kind := by
  cases kind <;> rfl

/-- A symbol is known to be 0 exactly if it has a value, with its low bits 0. -/
theorem isKnownZero_of_some {symbols : SymbolTable} {w : Text} {s : Symbol}
    (hlookup : symbols.lookup w = some s) :
    IsKnownZero symbols (.name w) ↔ ∃ v, s.value = some v ∧ v % 16 = 0 := by
  constructor
  · intro h
    cases h with
    | symbol hlookup' hvalue hzero =>
      rw [hlookup] at hlookup'
      obtain rfl := Option.some.inj hlookup'
      exact ⟨_, hvalue, hzero⟩
    | register hlookup' => rw [hlookup] at hlookup'; cases hlookup'
    | hexWord hlookup' => rw [hlookup] at hlookup'; cases hlookup'
  · rintro ⟨v, hvalue, hzero⟩
    exact .symbol hlookup hvalue hzero

/-- A name that is no symbol is known to be 0 as `R0` or as a hexadecimal zero. -/
theorem isKnownZero_of_none {symbols : SymbolTable} {w : Text} (hlookup : symbols.lookup w = none) :
    IsKnownZero symbols (.name w) ↔
      w = ['R', '0'] ∨ Token.isHexWord w = true ∧ Token.number 16 w = 0 := by
  constructor
  · intro h
    cases h with
    | symbol hlookup' => rw [hlookup] at hlookup'; cases hlookup'
    | register => exact Or.inl rfl
    | hexWord _ hhex hzero => exact Or.inr ⟨hhex, hzero⟩
  · rintro (rfl | ⟨hhex, hzero⟩)
    · exact .register hlookup
    · exact .hexWord hlookup hhex hzero

section First

variable {c : Context} {kind : OperandKind}

/-- The operand is taken if it has a value that is not 0 where 0 is refused; what is unresolved may
become anything. -/
theorem addRegister_eq_none_iff {term : RegisterTerm} {r : Reading} :
    (Reading.addRegister c kind term r).2 = none ↔
      ∃ v, term.eval c (Reading.registerClass kind) = .ok v ∧
        ¬ (kind = .nonzeroRegister ∧ v.value = 0 ∧ v.unresolved = false) := by
  unfold Reading.addRegister
  cases term.eval c (Reading.registerClass kind) with
  | error d => exact ⟨nofun, fun ⟨_, hv, _⟩ => nomatch hv⟩
  | ok v =>
    dsimp only
    split_ifs with h
    · exact ⟨nofun, fun ⟨_, hv, hnot⟩ => absurd h (Except.ok.inj hv ▸ hnot)⟩
    · exact ⟨fun _ => ⟨v, rfl, h⟩, fun _ => rfl⟩

/-- An operand that evaluates to a number, against the number it is known to be. -/
theorem addRegister_of_ok {term : RegisterTerm} {r : Reading} {v : Value}
    (heval : term.eval c (Reading.registerClass kind) = .ok v) :
    (Reading.addRegister c kind term r).2 = none ↔
      (kind = .nonzeroRegister → ¬ (v.value = 0 ∧ v.unresolved = false)) := by
  rw [addRegister_eq_none_iff]
  constructor
  · rintro ⟨v', hv', hnot⟩ hkind hzero
    rw [heval] at hv'
    obtain rfl := Except.ok.inj hv'
    exact hnot ⟨hkind, hzero⟩
  · exact fun h => ⟨v, heval, fun ⟨hkind, hzero⟩ => h hkind hzero⟩

/-- A number is taken exactly if it is in range, and not 0 where 0 is refused. -/
theorem addRegister_of_check {term : RegisterTerm} {r : Reading} {n : Nat}
    (heval : term.eval c (Reading.registerClass kind) = (Reading.registerClass kind).check n) :
    (Reading.addRegister c kind term r).2 = none ↔
      n ≤ limit kind ∧ (kind = .nonzeroRegister → n ≠ 0) := by
  unfold RegisterClass.check at heval
  rw [limit_registerClass] at heval
  split_ifs at heval with hlimit
  · rw [addRegister_eq_none_iff]
    constructor
    · rintro ⟨v, hv, _⟩
      rw [heval] at hv
      cases hv
    · exact fun h => absurd h.1 (Nat.not_le.mpr hlimit)
  · rw [addRegister_of_ok heval]
    simp only [Int.natCast_eq_zero, and_true]
    exact ⟨fun h => ⟨Nat.not_lt.mp hlimit, h⟩, fun h => h.2⟩

theorem number_eq_zero_iff {d : Char} (h : Token.isNameChar d = true) :
    Token.number 16 [d] = 0 ↔ d = '0' := by
  have hrange := Text.toNat_of_isNameChar h
  have hnumber : Token.number 16 [d] = Token.digitValue d := by simp [Token.number]
  have hzero : '0'.toNat = 48 := rfl
  rw [hnumber]
  unfold Token.digitValue
  constructor
  · split_ifs
    · intro hvalue
      exact Char.toNat_inj.mp (by omega)
    · exact False.elim
  · rintro rfl
    rfl

theorem admissible_name_iff {symbols : SymbolTable} {w : Text} :
    Admissible symbols kind (.name w) ↔
      (symbols.lookup w = none → Token.isHexWord w = true → Token.number 16 w ≤ limit kind) ∧
        (kind = .nonzeroRegister → ¬ IsKnownZero symbols (.name w)) := by
  constructor
  · exact fun h => ⟨h.hexWord w rfl, h.nonzero⟩
  · rintro ⟨hhexWord, hnonzero⟩
    refine ⟨nofun, fun w' hw' => ?_, hnonzero⟩
    obtain rfl := RegisterTerm.name.inj hw'
    exact hhexWord

/-- **Which operands an instruction takes in the first pass.** -/
theorem addRegister_first (hfirst : c.pass.isFinal = false) {term : RegisterTerm}
    (htidy : term.Tidy) (r : Reading) :
    (Reading.addRegister c kind term r).2 = none ↔ term.Admissible c.symbols kind := by
  -- an undefined name is unresolved in the first pass, so it is taken everywhere
  have hunknown : ∀ {w : Text},
      (RegisterTerm.name w).eval c (Reading.registerClass kind) = c.undefined w →
      (Reading.addRegister c kind (.name w) r).2 = none := by
    intro w heval
    rw [c.undefined_of_first w hfirst] at heval
    exact (addRegister_of_ok heval).mpr fun _ h => nomatch h.2
  cases term with
  | value n =>
    rw [@addRegister_of_check _ _ (.value n) r n rfl]
    constructor
    · rintro ⟨hlimit, hzero⟩
      refine ⟨fun m hm => ?_, nofun, fun hkind h => ?_⟩
      · obtain rfl := RegisterTerm.value.inj hm
        exact hlimit
      · cases h
        exact hzero hkind rfl
    · intro h
      refine ⟨h.value n rfl, fun hkind hn => h.nonzero hkind ?_⟩
      subst hn
      exact .value
  | name w =>
    rw [admissible_name_iff]
    cases hlookup : c.symbols.lookup w with
    | some s =>
      rw [isKnownZero_of_some hlookup]
      cases hvalue : s.value with
      | some v =>
        have heval := eval_of_valueOf c w (Reading.registerClass kind)
          (SymbolTable.valueOf_eq_some_iff.mpr ⟨s, hlookup, hvalue⟩)
        rw [addRegister_of_ok heval]
        refine ⟨fun h => ⟨nofun, fun hkind hzero => ?_⟩, fun h hkind hzero => h.2 hkind ?_⟩
        · obtain ⟨v', hv', hzero⟩ := hzero
          obtain rfl := Option.some.inj hv'
          refine h hkind ⟨?_, rfl⟩
          rw [hkind]
          exact hzero
        · rw [hkind] at hzero
          exact ⟨v, rfl, hzero.1⟩
      | none =>
        -- a symbol without a value may still become any register
        refine ⟨fun _ => ⟨nofun, fun _ ⟨_, hv, _⟩ => nomatch hv⟩, fun _ => hunknown ?_⟩
        simp [RegisterTerm.eval, hlookup, hvalue]
    | none =>
      have heval := eval_of_lookup_none c w (Reading.registerClass kind) hlookup
      rw [isKnownZero_of_none hlookup]
      cases hregister : Token.isRegisterWord w with
      | true =>
        -- one hex digit is always in range, and `R` makes no hex word of it
        obtain ⟨d, rfl, _⟩ := Token.exists_of_isRegisterWord hregister
        have hhex := Token.isHexWord_register d
        have hd : Token.isNameChar d = true := htidy d (by simp)
        rw [if_pos (by simp [Token.isNumeral, hregister]), literal, if_pos hregister] at heval
        rw [addRegister_of_ok heval]
        simp [hhex, number_eq_zero_iff hd]
      | false =>
        have hzero : w ≠ ['R', '0'] := by
          rintro rfl
          exact absurd hregister (by decide)
        cases hhex : Token.isHexWord w with
        | true =>
          rw [if_pos (by simp [Token.isNumeral, hhex]), literal, if_neg (by simp [hregister])]
            at heval
          rw [addRegister_of_check heval]
          simp [hzero]
        | false =>
          rw [if_neg (by simp [Token.isNumeral, hhex, hregister])] at heval
          simp [hunknown heval, hzero]

end First

end RegisterTerm

/-! ### The first pass -/

/-- The argument can be taken in the first pass. -/
def Argument.Accepted (symbols : SymbolTable) (kind : OperandKind) : Argument → Prop
  | .register term => term.Admissible symbols kind
  | .none | .expression _ => True

/-- The operation has no fault, and its operand can be taken in the first pass. -/
def Operation.Accepted (symbols : SymbolTable) : Operation → Prop
  | .empty | .page | .finish => True
  | .data list => list.fault = none
  | .equate operand fault | .origin operand fault => (∃ e, operand = .read e) ∧ fault = none
  | .instruction i operand list =>
    (∃ a, operand = .read a ∧ a.Accepted symbols i.operand) ∧ list.fault = none
  | .malformed _ => False

/-- The mnemonic of an instruction. -/
def Operation.mnemonic (operation : Operation) : Option Text :=
  operation.instruction?.map Instruction.mnemonic

section First

variable {c : Context} (hfirst : c.pass.isFinal = false)

include hfirst

namespace Reading

/-- In the first pass a data list is in error only for its form. -/
theorem addData_first (list : DataList) (r : Reading) :
    (addData c list r).2 = none ↔ list.fault = none := by
  rw [addData_eq, addItems_first hfirst]
  cases list.fault <;> simp

/-- In the first pass an equate or `ORG` is in error only for its form. -/
theorem addLast_first (operand : Operand Expr) (fault : Option Kind) (r : Reading) :
    (addLast c operand fault r).2 = none ↔ (∃ e, operand = .read e) ∧ fault = none := by
  cases operand with
  | broken b => exact ⟨nofun, fun ⟨⟨_, h⟩, _⟩ => nomatch h⟩
  | read e =>
    obtain ⟨v, hv⟩ := Expr.eval_first hfirst e
    unfold addLast
    simp [hv]

/-- In the first pass an operand is in error only for its form or its register. -/
theorem addOperand_first (kind : OperandKind) {operand : Operand Argument}
    (htidy : operand.Tidy Argument.Tidy) (r : Reading) :
    (addOperand c kind operand r).2 = none ↔
      ∃ a, operand = .read a ∧ a.Accepted c.symbols kind := by
  cases operand with
  | broken b => exact ⟨nofun, fun ⟨_, h, _⟩ => nomatch h⟩
  | read a =>
    have hread : (∃ a', Operand.read a = .read a' ∧ a'.Accepted c.symbols kind) ↔
        a.Accepted c.symbols kind := by simp
    rw [hread]
    cases a with
    | none => exact ⟨fun _ => trivial, fun _ => rfl⟩
    | register term => exact RegisterTerm.addRegister_first hfirst htidy r
    | expression e =>
      -- no name is undefined yet, and no branch is checked
      obtain ⟨v, hv⟩ := Expr.eval_first hfirst e
      refine ⟨fun _ => trivial, fun _ => ?_⟩
      show (addExpression c kind e r).2 = none
      unfold addExpression
      simp only [hv, hfirst, Bool.false_and]
      cases kind with
      | immediate => dsimp only; split_ifs <;> rfl
      | _ => rfl

/-- In the first pass an instruction is accepted exactly if its operand and its data are. -/
theorem addInstruction_first {i : Instruction} {operand : Operand Argument} {list : DataList}
    (htidy : operand.Tidy Argument.Tidy) (r : Reading) :
    (addInstruction c i operand list r).2 = none ↔
      (∃ a, operand = .read a ∧ a.Accepted c.symbols i.operand) ∧ list.fault = none := by
  have hoperand := addOperand_first hfirst i.operand htidy
    { r with instruction := some i, size := i.size }
  unfold addInstruction
  split <;> rename_i heq <;> rw [heq] at hoperand
  · exact ⟨nofun, fun h => nomatch hoperand.mpr h.1⟩
  · rw [addData_first hfirst]
    exact ⟨fun h => ⟨hoperand.mp rfl, h⟩, fun h => h.2⟩

end Reading

/-- **In the first pass a statement is in error only for its form and its registers.** -/
theorem Shape.error_resolve_first {s : Shape} (htidy : s.operation.Tidy) :
    (s.resolve c).status.error? = none ↔ s.operation.Accepted c.symbols := by
  rw [error_resolve]
  unfold Shape.progress
  cases hop : s.operation with
  | data list => exact Reading.addData_first hfirst list _
  | equate operand fault => exact Reading.addLast_first hfirst operand fault _
  | origin operand fault => exact Reading.addLast_first hfirst operand fault _
  | instruction i operand list =>
    rw [hop] at htidy
    exact Reading.addInstruction_first hfirst htidy.1 _
  | malformed d => exact ⟨nofun, False.elim⟩
  | empty | page | finish => exact ⟨fun _ => trivial, fun _ => rfl⟩

end First

/-! ### Operations -/

namespace Text

/-- The operand that an instruction of the kind takes. -/
inductive IsOperand (symbols : SymbolTable) : OperandKind → Text → Prop
  /-- None. -/
  | none : IsOperand symbols .none []
  /-- A register or device. -/
  | register {kind : OperandKind} {b p : Text} {term : RegisterTerm}
      (hkind : kind = .register ∨ kind = .nonzeroRegister ∨ kind = .device) (hb : b.Blanks)
      (hterm : RegisterTerm.Spells p term) (hadmissible : term.Admissible symbols kind) :
      IsOperand symbols kind (b ++ p)
  /-- An expression. -/
  | expression {kind : OperandKind} {b p : Text} {e : Expr}
      (hkind : kind = .immediate ∨ kind = .shortAddress ∨ kind = .longAddress) (hb : b.Blanks)
      (hexpr : Expr.Spells p e) : IsOperand symbols kind (b ++ p)

/-- An expression that ends the statement. -/
inductive IsLast : Text → Prop
  /-- Blanks may stand around it. -/
  | mk {b p b' : Text} {e : Expr} (hbefore : b.Blanks) (hexpr : Expr.Spells p e)
      (hafter : b'.Blanks) : IsLast (b ++ (p ++ b'))

/-- What stands behind the name of a directive or instruction, and what the statement is. -/
inductive IsOperands (symbols : SymbolTable) : Text → Text → Status → Option Text → Prop
  /-- Data. -/
  | data {t : Text} (h : t.IsDataList) : IsOperands symbols "DC".toList t .data none
  /-- A new location counter. -/
  | origin {t : Text} (h : t.IsLast) : IsOperands symbols "ORG".toList t .origin none
  /-- A new page. -/
  | page {t : Text} (h : t.Blanks) : IsOperands symbols "PAGE".toList t .page none
  /-- The end of the program. -/
  | finish {t : Text} (h : t.Blanks) : IsOperands symbols "END".toList t .finish none
  /-- An instruction with its operand, and data behind it. -/
  | instruction {i : Instruction} {p q : Text} (hi : i ∈ Instruction.all)
      (hoperand : p.IsOperand symbols i.operand) (htrailer : q.IsTrailer) :
      IsOperands symbols i.mnemonic (p ++ q) .instruction (some i.mnemonic)

end Text

namespace Argument

variable {symbols : SymbolTable} {kind : OperandKind}

/-- **An operand of the grammar is read and accepted.** -/
theorem read_of_isOperand {p rest : Text} (h : p.IsOperand symbols kind) (hrest : rest.Closes) :
    ∃ a, Argument.read kind (p ++ rest) = (.read a, rest) ∧ a.Accepted symbols kind := by
  cases h with
  | none => exact ⟨.none, rfl, trivial⟩
  | @register _ b p term hkind hb hterm hadmissible =>
    have hread : Argument.readRegister (b ++ (p ++ rest)) = (.read (.register term), rest) := by
      unfold readRegister
      rw [RegisterTerm.read_of_spells hb hterm hrest.stops]
    refine ⟨.register term, ?_, hadmissible⟩
    rw [List.append_assoc]
    rcases hkind with rfl | rfl | rfl <;> exact hread
  | @expression _ b p e hkind hb hexpr =>
    have hread : Argument.readExpression (b ++ (p ++ rest)) = (.read (.expression e), rest) := by
      unfold readExpression
      rw [Expr.read_of_spells hb hexpr hrest]
    refine ⟨.expression e, ?_, trivial⟩
    rw [List.append_assoc]
    rcases hkind with rfl | rfl | rfl <;> exact hread

theorem isOperand_of_readRegister {t rest : Text} {a : Argument}
    (hkind : kind = .register ∨ kind = .nonzeroRegister ∨ kind = .device)
    (h : Argument.readRegister t = (.read a, rest)) (haccepted : a.Accepted symbols kind) :
    ∃ p, t = p ++ rest ∧ p.IsOperand symbols kind := by
  unfold readRegister at h
  split at h <;> rename_i hread <;> obtain ⟨ha, rfl⟩ := Prod.mk.inj h
  · cases ha
  · obtain rfl := Operand.read.inj ha
    obtain ⟨b, p, hb, rfl, hspells⟩ := RegisterTerm.spells_of_read hread
    exact ⟨b ++ p, (List.append_assoc ..).symm, .register hkind hb hspells haccepted⟩

theorem isOperand_of_readExpression {t rest : Text} {a : Argument}
    (hkind : kind = .immediate ∨ kind = .shortAddress ∨ kind = .longAddress)
    (h : Argument.readExpression t = (.read a, rest)) :
    ∃ p, t = p ++ rest ∧ p.IsOperand symbols kind := by
  unfold readExpression at h
  split at h <;> rename_i hread <;> obtain ⟨ha, rfl⟩ := Prod.mk.inj h
  · cases ha
  · obtain ⟨b, p, hb, rfl, hspells⟩ := Expr.spells_of_read hread
    exact ⟨b ++ p, (List.append_assoc ..).symm, .expression hkind hb hspells⟩

/-- **An operand that is read and accepted is one of the grammar.** -/
theorem isOperand_of_read {t rest : Text} {a : Argument}
    (h : Argument.read kind t = (.read a, rest)) (haccepted : a.Accepted symbols kind) :
    ∃ p, t = p ++ rest ∧ p.IsOperand symbols kind := by
  cases kind with
  | none =>
    obtain ⟨_, rfl⟩ := Prod.mk.inj h
    exact ⟨[], rfl, .none⟩
  | register => exact isOperand_of_readRegister (by simp) h haccepted
  | nonzeroRegister => exact isOperand_of_readRegister (by simp) h haccepted
  | device => exact isOperand_of_readRegister (by simp) h haccepted
  | immediate => exact isOperand_of_readExpression (by simp) h
  | shortAddress => exact isOperand_of_readExpression (by simp) h
  | longAddress => exact isOperand_of_readExpression (by simp) h

end Argument

namespace Operation

variable {symbols : SymbolTable}

/-- Only blanks may stand where a statement ends. -/
theorem trailing_eq_none_iff {t : Text} : trailing t = none ↔ t.Blanks := by
  unfold trailing
  rw [Option.map_eq_none_iff, List.head?_eq_none_iff]
  exact List.dropWhile_eq_nil_iff

/-- The last expression of a statement is read exactly if nothing stands behind it. -/
theorem readLast_iff {make : Operand Expr → Option Kind → Operation} {t : Text}
    (hmake : ∀ operand fault, (make operand fault).Accepted symbols ↔
      (∃ e, operand = .read e) ∧ fault = none) :
    t.IsLast ↔ (readLast make t).Accepted symbols := by
  constructor
  · rintro ⟨hbefore, hexpr, hafter⟩
    unfold readLast
    rw [Expr.read_of_spells hbefore hexpr hafter.closes]
    exact (hmake _ _).mpr ⟨⟨_, rfl⟩, trailing_eq_none_iff.mpr hafter⟩
  · intro h
    unfold readLast at h
    split at h <;> rename_i hread <;> obtain ⟨⟨e, he⟩, hfault⟩ := (hmake _ _).mp h
    · cases he
    · obtain ⟨b, p, hb, rfl, hspells⟩ := Expr.spells_of_read hread
      exact .mk hb hspells (trailing_eq_none_iff.mp hfault)

theorem readBare_iff {operation : Operation} {t : Text} (h : operation.Accepted symbols) :
    t.Blanks ↔ (readBare operation t).Accepted symbols := by
  unfold readBare
  split_ifs with hempty
  · exact ⟨fun _ => h, fun _ => Text.blanks_of_skipSpaces (List.isEmpty_iff.mp hempty)⟩
  · exact ⟨fun hb => absurd (List.isEmpty_iff.mpr hb.skipSpaces_eq) hempty, False.elim⟩

/-- An instruction is accepted exactly if what follows its name is an operand and a trailer. -/
theorem readInstruction_iff {i : Instruction} {t : Text} :
    (∃ p q, t = p ++ q ∧ p.IsOperand symbols i.operand ∧ q.IsTrailer) ↔
      (readInstruction i t).Accepted symbols := by
  constructor
  · rintro ⟨p, q, rfl, hoperand, htrailer⟩
    obtain ⟨a, hread, haccepted⟩ := Argument.read_of_isOperand hoperand htrailer.closes
    unfold readInstruction
    rw [hread]
    exact ⟨⟨a, rfl, haccepted⟩, (DataList.isTrailer_iff q).mp htrailer⟩
  · intro h
    unfold readInstruction at h
    split at h <;> rename_i hread <;> obtain ⟨⟨a, ha, haccepted⟩, hfault⟩ := h
    · cases ha
    · obtain rfl := Operand.read.inj ha
      obtain ⟨p, rfl, hoperand⟩ := Argument.isOperand_of_read hread haccepted
      exact ⟨p, _, rfl, hoperand, (DataList.isTrailer_iff _).mpr hfault⟩

theorem status_readInstruction (i : Instruction) (t : Text) :
    (readInstruction i t).status = .instruction ∧
      (readInstruction i t).mnemonic = some i.mnemonic := by
  unfold readInstruction
  split <;> exact ⟨rfl, rfl⟩

/-- A bare directive that is accepted is the directive. -/
theorem readBare_eq {operation : Operation} {t : Text}
    (h : (readBare operation t).Accepted symbols) : readBare operation t = operation := by
  unfold readBare at h ⊢
  split_ifs at h ⊢
  · rfl
  · exact h.elim

/-- What the name of an operation can be. -/
theorem read_cases (name t : Text) :
    name = "DC".toList ∧ Operation.read name t = .data (DataList.read t) ∨
    name = "ORG".toList ∧ Operation.read name t = readLast .origin t ∨
    name = "PAGE".toList ∧ Operation.read name t = readBare .page t ∨
    name = "END".toList ∧ Operation.read name t = readBare .finish t ∨
    (∃ i, Instruction.ofMnemonic? name = some i ∧ Operation.read name t = readInstruction i t) ∨
    Operation.read name t = .malformed (.unknownMnemonic name) := by
  unfold Operation.read
  split_ifs with hdc horg hpage hend
  · exact Or.inl ⟨hdc, rfl⟩
  · exact Or.inr (Or.inl ⟨horg, rfl⟩)
  · exact Or.inr (Or.inr (Or.inl ⟨hpage, rfl⟩))
  · exact Or.inr (Or.inr (Or.inr (Or.inl ⟨hend, rfl⟩)))
  · cases hmnemonic : Instruction.ofMnemonic? name with
    | none => exact Or.inr (Or.inr (Or.inr (Or.inr (Or.inr rfl))))
    | some i => exact Or.inr (Or.inr (Or.inr (Or.inr (Or.inl ⟨i, rfl, rfl⟩))))

theorem status_readLast (make : Operand Expr → Option Kind → Operation) (status : Status)
    (hmake : ∀ operand fault,
      (make operand fault).status = status ∧ (make operand fault).mnemonic = none) (t : Text) :
    (readLast make t).status = status ∧ (readLast make t).mnemonic = none := by
  unfold readLast
  split <;> exact hmake _ _

theorem status_readLast_equate (t : Text) :
    (readLast .equate t).status = .equate ∧ (readLast .equate t).mnemonic = none :=
  status_readLast .equate .equate (fun _ _ => ⟨rfl, rfl⟩) t

theorem status_readLast_origin (t : Text) :
    (readLast .origin t).status = .origin ∧ (readLast .origin t).mnemonic = none :=
  status_readLast .origin .origin (fun _ _ => ⟨rfl, rfl⟩) t

/-- **The operands of a directive or instruction are accepted exactly if they have its form.** -/
theorem isOperands_iff {name t : Text} {status : Status} {mnemonic : Option Text}
    (hname : name.IsName) :
    Text.IsOperands symbols name t status mnemonic ↔
      (Operation.read name t).Accepted symbols ∧ (Operation.read name t).status = status ∧
        (Operation.read name t).mnemonic = mnemonic := by
  have horigin : ∀ operand fault, (Operation.origin operand fault).Accepted symbols ↔
      (∃ e, operand = .read e) ∧ fault = none := fun _ _ => Iff.rfl
  have hpage : Operation.page.Accepted symbols := trivial
  have hfinish : Operation.finish.Accepted symbols := trivial
  constructor
  · intro h
    cases h with
    | data h => exact ⟨(DataList.isDataList_iff t).mp h, rfl, rfl⟩
    | origin h => exact ⟨(readLast_iff horigin).mp h, status_readLast_origin t⟩
    | page h =>
      have haccepted := (readBare_iff hpage).mp h
      have hread : Operation.read "PAGE".toList t = .page := readBare_eq haccepted
      exact ⟨haccepted, by rw [hread]; exact ⟨rfl, rfl⟩⟩
    | finish h =>
      have haccepted := (readBare_iff hfinish).mp h
      have hread : Operation.read "END".toList t = .finish := readBare_eq haccepted
      exact ⟨haccepted, by rw [hread]; exact ⟨rfl, rfl⟩⟩
    | @instruction i p q hi hoperand htrailer =>
      rw [read_mnemonic hi]
      exact ⟨readInstruction_iff.mp ⟨p, q, rfl, hoperand, htrailer⟩, status_readInstruction i _⟩
  · rintro ⟨haccepted, hstatus, hmnemonic⟩
    rcases read_cases name t with ⟨rfl, hread⟩ | ⟨rfl, hread⟩ | ⟨rfl, hread⟩ | ⟨rfl, hread⟩ |
        ⟨i, hi, hread⟩ | hread <;> rw [hread] at haccepted hstatus hmnemonic
    · subst hstatus hmnemonic
      exact .data ((DataList.isDataList_iff t).mpr haccepted)
    · rw [(status_readLast_origin t).1] at hstatus
      rw [(status_readLast_origin t).2] at hmnemonic
      subst hstatus hmnemonic
      exact .origin ((readLast_iff horigin).mpr haccepted)
    · rw [readBare_eq haccepted] at hstatus hmnemonic
      subst hstatus hmnemonic
      exact .page ((readBare_iff hpage).mpr haccepted)
    · rw [readBare_eq haccepted] at hstatus hmnemonic
      subst hstatus hmnemonic
      exact .finish ((readBare_iff hfinish).mpr haccepted)
    · obtain ⟨p, q, rfl, hoperand, htrailer⟩ := readInstruction_iff.mpr haccepted
      rw [(status_readInstruction i _).1] at hstatus
      rw [(status_readInstruction i _).2] at hmnemonic
      subst hstatus hmnemonic
      -- mnemonics are looked up by upper case, and a name is its own
      have hsame := List.find?_some hi
      rw [beq_iff_eq, Text.upper_of_isName hname] at hsame
      subst hsame
      exact .instruction (List.mem_of_find?_eq_some hi) hoperand htrailer
    · exact haccepted.elim

/-- Blanks behind the name do not count. -/
@[simp] theorem read_skipSpaces (name t : Text) :
    Operation.read name (Text.skipSpaces t) = Operation.read name t := by
  have hexpr : Expr.read (Text.skipSpaces t) = Expr.read t := by
    unfold Expr.read Expr.readHead
    simp
  have hlist : DataList.read (Text.skipSpaces t) = DataList.read t := by
    rw [DataList.read, DataList.read, Text.skipSpaces_skipSpaces]
  have hbare : ∀ operation, readBare operation (Text.skipSpaces t) = readBare operation t := by
    intro operation
    unfold readBare
    simp
  have hinstruction : ∀ i, readInstruction i (Text.skipSpaces t) = readInstruction i t := by
    intro i
    have hregister : Argument.readRegister (Text.skipSpaces t) = Argument.readRegister t := by
      unfold Argument.readRegister RegisterTerm.read
      simp
    have hexpression : Argument.readExpression (Text.skipSpaces t) = Argument.readExpression t := by
      unfold Argument.readExpression
      rw [hexpr]
    unfold readInstruction Argument.read
    cases i.operand with
    | none =>
      dsimp only
      unfold DataList.readTrailer
      simp
    | register | nonzeroRegister | device => rw [hregister]
    | immediate | shortAddress | longAddress => rw [hexpression]
  unfold Operation.read readLast
  simp only [hexpr, hlist, hbare, hinstruction]

end Operation

/-! ### Statements -/

namespace Text

/-- What may stand before a statement: blanks and semicolons. -/
def Leads (t : Text) : Prop := ∀ c ∈ t, c = ' ' ∨ c = '\t' ∨ c = ';'

/-- What stands behind a label, and what the statement is. -/
inductive IsOperation (symbols : SymbolTable) : Text → Status → Option Text → Prop
  /-- Data behind a comma. -/
  | data {list : Text} (h : list.IsDataList) : IsOperation symbols (',' :: list) .data none
  /-- A directive or instruction, whose name goes as far as it can. -/
  | named {w name t : Text} {status : Status} {mnemonic : Option Text}
      (hname : Token.Spells w (.word name)) (hend : ∀ c ∈ t.head?, Token.isWordChar c = false)
      (h : IsOperands symbols name t status mnemonic) : IsOperation symbols (w ++ t) status mnemonic

/-- **The grammar of statements.**  The text is a statement of the given status, with the given
label and mnemonic. -/
inductive IsStatement (symbols : SymbolTable) : Text → Status → Option Text → Option Text → Prop
  /-- Nothing. -/
  | empty {lead : Text} (hlead : lead.Leads) : IsStatement symbols lead .nop none none
  /-- An equate, which takes no label. -/
  | equate {lead w name b value : Text} (hlead : lead.Leads) (hname : Token.Spells w (.word name))
      (hb : b.Blanks) (hvalue : value.IsLast) :
      IsStatement symbols (lead ++ (w ++ (b ++ '=' :: value))) .equate (some name) none
  /-- An operation without a label. -/
  | unlabelled {lead t : Text} {status : Status} {mnemonic : Option Text} (hlead : lead.Leads)
      (h : t.IsOperation symbols status mnemonic) :
      IsStatement symbols (lead ++ t) status none mnemonic
  /-- A label alone. -/
  | label {lead w label b : Text} (hlead : lead.Leads) (hlabel : Token.Spells w (.word label))
      (hb : b.Blanks) : IsStatement symbols (lead ++ (w ++ ':' :: b)) .nop (some label) none
  /-- An operation with a label. -/
  | labelled {lead w label b t : Text} {status : Status} {mnemonic : Option Text}
      (hlead : lead.Leads) (hlabel : Token.Spells w (.word label)) (hb : b.Blanks)
      (h : t.IsOperation symbols status mnemonic) :
      IsStatement symbols (lead ++ (w ++ ':' :: (b ++ t))) status (some label) mnemonic

/-- Blanks, and behind them nothing, a term or a comma. -/
def IsField (t : Text) : Prop :=
  ∃ b u, b.Blanks ∧ t = b ++ u ∧ (u = [] ∨ u.Begins ∨ ∃ list, u = ',' :: list)

variable {symbols : SymbolTable}

/-- Operands stand behind blanks and start with a term or a comma, if there are any. -/
theorem IsOperands.isField {name t : Text} {status : Status} {mnemonic : Option Text}
    (h : IsOperands symbols name t status mnemonic) : t.IsField := by
  cases h with
  | data h =>
    cases h with
    | last hbefore hitem _ => exact ⟨_, _, hbefore, rfl, Or.inr (Or.inl (hitem.begins.append _))⟩
    | cons hbefore hitem _ _ => exact ⟨_, _, hbefore, rfl, Or.inr (Or.inl (hitem.begins.append _))⟩
  | origin h =>
    obtain ⟨hbefore, hexpr, _⟩ := h
    exact ⟨_, _, hbefore, rfl, Or.inr (Or.inl (hexpr.begins.append _))⟩
  | page h => exact ⟨_, [], h, (List.append_nil _).symm, Or.inl rfl⟩
  | finish h => exact ⟨_, [], h, (List.append_nil _).symm, Or.inl rfl⟩
  | @instruction i p q _ hoperand htrailer =>
    generalize i.operand = kind at hoperand
    cases hoperand with
    | none =>
      -- without an operand the data come first
      cases htrailer with
      | nothing h => exact ⟨_, [], h, (List.append_nil _).symm, Or.inl rfl⟩
      | data hb _ => exact ⟨_, _, hb, rfl, Or.inr (Or.inr ⟨_, rfl⟩)⟩
    | register _ hb hterm =>
      exact ⟨_, _, hb, List.append_assoc .., Or.inr (Or.inl (hterm.begins.append _))⟩
    | expression _ hb hexpr =>
      exact ⟨_, _, hb, List.append_assoc .., Or.inr (Or.inl (hexpr.begins.append _))⟩

/-- What stands behind a name cannot be taken for a part of it, for a colon or for an equals
sign. -/
theorem IsField.behind {t : Text} (h : t.IsField)
    (hend : ∀ c ∈ t.head?, Token.isWordChar c = false) :
    t.Stops ∧ t.head? ≠ some ':' ∧ (skipSpaces t).head? ≠ some '=' := by
  obtain ⟨b, u, hb, rfl, hu⟩ := h
  have hmarks : ∀ c ∈ ['\'', ':', '='], c ∈ marks ∧ c ≠ '*' ∧ c ≠ ',' ∧ isSpace c = false := by
    simp only [List.forall_mem_cons]
    exact ⟨by decide, by decide, by decide, List.forall_mem_nil _⟩
  have hfield : ∀ c ∈ ['\'', ':', '='], u.head? ≠ some c := by
    intro c hc
    obtain ⟨hmark, hstar, hcomma, _⟩ := hmarks c hc
    -- nothing, a term or a comma, and none of them is such a mark
    rcases hu with rfl | hbegins | ⟨list, rfl⟩
    · exact nofun
    · exact hbegins.head_ne hmark hstar
    · exact fun h => hcomma (Option.some.inj h).symm
  have hhead : ∀ c ∈ ['\'', ':', '='], (b ++ u).head? ≠ some c := by
    intro c hc hhead
    cases b with
    | nil => exact hfield c hc hhead
    | cons d more =>
      obtain rfl := Option.some.inj hhead
      have hspace := (hmarks d hc).2.2.2
      rw [hb d (List.mem_cons_self ..)] at hspace
      cases hspace
  have hskip : skipSpaces (b ++ u) = u := by
    rw [skipSpaces_append hb]
    rcases hu with rfl | hbegins | ⟨list, rfl⟩
    · rfl
    · exact hbegins.skipSpaces_eq
    · rfl
  refine ⟨fun c hc => ⟨hend c hc, ?_⟩, hhead ':' (by decide), ?_⟩
  · rintro rfl
    exact hhead '\'' (by decide) hc
  · rw [hskip]
    exact hfield '=' (by decide)

end Text

namespace Shape

/-- A spelled name is read at the start of a statement. -/
theorem readName_of_spells {w name rest : Text} (h : Token.Spells w (.word name))
    (hrest : rest.Stops) : readName (w ++ rest) = (.ok name, rest) := by
  have hnext := Token.next_of_spells h hrest
  cases h with
  | @word c more hletter hword hname =>
    have hperiod : c ≠ '.' := by
      rintro rfl
      exact absurd hletter (by decide)
    rw [List.cons_append] at hnext ⊢
    unfold readName
    dsimp only
    rw [if_neg hperiod, hletter, hnext]
    rfl
  | literal hliteral => exact absurd rfl (hliteral.ne_word _)

/-- A name that is read at the start of a statement was spelled. -/
theorem spells_of_readName {t name rest : Text} (h : readName t = (.ok name, rest)) :
    ∃ w, t = w ++ rest ∧ Token.Spells w (.word name) ∧ rest.Stops := by
  unfold readName at h
  split at h
  · cases (Prod.mk.inj h).1
  · split_ifs at h
    · cases (Prod.mk.inj h).1
    · cases (Prod.mk.inj h).1
    · split at h <;> rename_i hnext
      · cases (Prod.mk.inj h).1
      · obtain ⟨rfl, rfl⟩ := read_inj h
        obtain ⟨w, ht, hspells, hstops⟩ := Token.spells_of_next hnext (fun h => by cases h) rfl
        exact ⟨w, ht, hspells, hstops _ rfl⟩
      · cases (Prod.mk.inj h).1

/-- The shape is accepted in the first pass, as a statement of the given status, label and
mnemonic. -/
structure Conforms (symbols : SymbolTable) (s : Shape) (status : Status)
    (label mnemonic : Option Text) : Prop where
  /-- It is accepted. -/
  accepted : s.operation.Accepted symbols
  /-- Its status. -/
  status : s.operation.status = status
  /-- Its label. -/
  label : s.label = label
  /-- Its mnemonic. -/
  mnemonic : s.operation.mnemonic = mnemonic

theorem not_conforms_broken {symbols : SymbolTable} {l : Option Text} {kind : Kind}
    {status : Status} {label mnemonic : Option Text} :
    ¬ (broken l kind).Conforms symbols status label mnemonic :=
  fun h => h.accepted

section Readers

variable {t name rest : Text}

/-- A name with an equals sign behind it makes an equate. -/
theorem readNamed_equate {value : Text} (hname : readName t = (.ok name, rest))
    (hcolon : rest.head? ≠ some ':') (hequals : Text.skipSpaces rest = '=' :: value) :
    readNamed t = ⟨some name, Operation.readLast .equate value⟩ := by
  unfold readNamed
  rw [hname]
  split <;> rename_i h
  · cases (Prod.mk.inj h).1
  · obtain ⟨_, rfl⟩ := Prod.mk.inj h
    exact absurd rfl hcolon
  · obtain ⟨rfl, rfl⟩ := read_inj h
    rw [hequals]
    rfl

/-- A name with neither a colon nor an equals sign behind it names an operation. -/
theorem readNamed_operation (hname : readName t = (.ok name, rest))
    (hcolon : rest.head? ≠ some ':') (hequals : (Text.skipSpaces rest).head? ≠ some '=') :
    readNamed t = ⟨none, Operation.read name rest⟩ := by
  unfold readNamed
  rw [hname]
  split <;> rename_i h
  · cases (Prod.mk.inj h).1
  · obtain ⟨_, rfl⟩ := Prod.mk.inj h
    exact absurd rfl hcolon
  · obtain ⟨rfl, rfl⟩ := read_inj h
    split <;> rename_i hskip
    · rw [hskip] at hequals
      exact absurd rfl hequals
    · -- the blanks were skipped in search of an equals sign
      simp

/-- Behind a label, a name without an equals sign names an operation. -/
theorem readLabelled_operation {label : Text} (hstart : (Text.skipSpaces t).Begins)
    (hname : readName (Text.skipSpaces t) = (.ok name, rest))
    (hequals : (Text.skipSpaces rest).head? ≠ some '=') :
    readLabelled label t = ⟨some label, Operation.read name rest⟩ := by
  unfold readLabelled
  split <;> rename_i hskip
  · rw [hskip] at hstart
    obtain ⟨_, _, h, _⟩ := hstart
    cases h
  · rw [hskip] at hstart
    exact absurd rfl (hstart.head_ne (by decide) (by decide))
  · rw [hname]
    dsimp only
    split <;> rename_i hbehind
    · rw [hbehind] at hequals
      exact absurd rfl hequals
    · simp

end Readers

section Statements

variable {symbols : SymbolTable} {status : Status} {label mnemonic : Option Text}

/-- What is accepted behind a label has the form of an operation. -/
theorem isStatement_of_readLabelled {lead w l t : Text} (hlead : lead.Leads)
    (hlabel : Token.Spells w (.word l))
    (h : (readLabelled l t).Conforms symbols status label mnemonic) :
    (lead ++ (w ++ ':' :: t)).IsStatement symbols status label mnemonic := by
  obtain ⟨b, hb, ht⟩ := Text.exists_blanks t
  unfold readLabelled at h
  split at h <;> rename_i hskip
  · -- the label stands alone
    obtain ⟨_, rfl, rfl, rfl⟩ := h
    exact .label hlead hlabel (Text.blanks_of_skipSpaces hskip)
  · -- data behind the label
    obtain ⟨hfault, rfl, rfl, rfl⟩ := h
    rw [ht, hskip]
    exact .labelled hlead hlabel hb (.data ((DataList.isDataList_iff _).mpr hfault))
  · -- an operation behind the label, or an equate, which is refused
    split at h <;> rename_i hname
    · exact (not_conforms_broken h).elim
    · split at h
      · exact (not_conforms_broken h).elim
      · obtain ⟨v, hv, hspells, hstops⟩ := spells_of_readName hname
        rw [Operation.read_skipSpaces] at h
        obtain ⟨haccepted, hstatus, rfl, hmnemonic⟩ := h
        rw [ht, hv]
        refine .labelled hlead hlabel hb (.named hspells (fun c hc => (hstops c hc).1) ?_)
        exact (Operation.isOperands_iff hspells.isName).mpr ⟨haccepted, hstatus, hmnemonic⟩

/-- What starts with a name and is accepted is a statement of the grammar. -/
theorem isStatement_of_readNamed {lead t : Text} (hlead : lead.Leads)
    (h : (readNamed t).Conforms symbols status label mnemonic) :
    (lead ++ t).IsStatement symbols status label mnemonic := by
  unfold readNamed at h
  split at h <;> rename_i hname
  · exact (not_conforms_broken h).elim
  · -- a label
    obtain ⟨w, rfl, hspells, _⟩ := spells_of_readName hname
    exact isStatement_of_readLabelled hlead hspells h
  · rename_i rest _
    obtain ⟨w, rfl, hspells, hstops⟩ := spells_of_readName hname
    obtain ⟨b, hb, hrest⟩ := Text.exists_blanks rest
    split at h <;> rename_i hskip
    · -- an equate
      obtain ⟨haccepted, hstatus, rfl, hmnemonic⟩ := h
      obtain ⟨hstatus', hmnemonic'⟩ := Operation.status_readLast_equate _
      rw [hstatus'] at hstatus
      rw [hmnemonic'] at hmnemonic
      subst hstatus hmnemonic
      rw [hskip] at hrest
      rw [hrest]
      exact .equate hlead hspells hb ((Operation.readLast_iff fun _ _ => Iff.rfl).mpr haccepted)
    · -- an operation without a label
      rw [Operation.read_skipSpaces] at h
      obtain ⟨haccepted, hstatus, rfl, hmnemonic⟩ := h
      refine .unlabelled hlead (.named hspells (fun c hc => (hstops c hc).1) ?_)
      exact (Operation.isOperands_iff hspells.isName).mpr ⟨haccepted, hstatus, hmnemonic⟩

theorem isLeading_iff {c : Char} : isLeading c = true ↔ c = ' ' ∨ c = '\t' ∨ c = ';' := by
  rw [isLeading, Bool.or_eq_true, Text.isSpace_iff, beq_iff_eq, or_assoc]

/-- **What is accepted is a statement of the grammar.** -/
theorem isStatement_of_read {t : Text} (h : (Shape.read t).Conforms symbols status label mnemonic) :
    t.IsStatement symbols status label mnemonic := by
  have hlead : Text.Leads (t.takeWhile isLeading) :=
    fun c hc => isLeading_iff.mp (List.mem_takeWhile_imp hc)
  have ht : t = t.takeWhile isLeading ++ t.dropWhile isLeading :=
    List.takeWhile_append_dropWhile.symm
  unfold Shape.read at h
  split at h <;> rename_i hstart
  · obtain ⟨_, rfl, rfl, rfl⟩ := h
    rw [hstart, List.append_nil] at ht
    rw [ht]
    exact .empty hlead
  · obtain ⟨hfault, rfl, rfl, rfl⟩ := h
    rw [hstart] at ht
    rw [ht]
    exact .unlabelled hlead (.data ((DataList.isDataList_iff _).mpr hfault))
  · rw [ht]
    exact isStatement_of_readNamed hlead h

/-! ### A statement is read as what it is -/

/-- What may stand before a statement is not read. -/
theorem read_lead {lead : Text} (hlead : lead.Leads) (t : Text) :
    Shape.read (lead ++ t) = Shape.read t := by
  unfold Shape.read
  rw [List.dropWhile_append_of_pos fun c hc => isLeading_iff.mpr (hlead c hc)]

/-- A statement that starts with a name is read from it. -/
theorem read_name {w name : Text} (h : Token.Spells w (.word name)) (rest : Text) :
    Shape.read (w ++ rest) = readNamed (w ++ rest) := by
  obtain ⟨c, more, rfl, hc, _⟩ := h.head
  have hlead : ¬ isLeading c = true := by
    rw [isLeading_iff]
    rintro (rfl | rfl | rfl) <;> rw [Text.isWordChar_of_mem_marks (by decide)] at hc <;> cases hc
  unfold Shape.read
  rw [List.cons_append, List.dropWhile_cons_of_neg hlead]
  split <;> rename_i hstart
  · cases hstart
  · obtain ⟨rfl, _⟩ := List.cons.inj hstart
    rw [Text.isWordChar_of_mem_marks (by decide)] at hc
    cases hc
  · rfl

theorem read_label {w l rest : Text} (h : Token.Spells w (.word l)) :
    Shape.read (w ++ ':' :: rest) = readLabelled l rest := by
  rw [read_name h]
  unfold readNamed
  rw [readName_of_spells h (Text.stops_of_mark (by decide) (by decide) rest)]
  rfl

/-- An operation of the grammar is accepted, without a label and behind one. -/
theorem conforms_of_isOperation {t : Text} (h : t.IsOperation symbols status mnemonic) :
    (Shape.read t).Conforms symbols status none mnemonic ∧
      ∀ {b l : Text}, b.Blanks →
        (readLabelled l (b ++ t)).Conforms symbols status (some l) mnemonic := by
  cases h with
  | @data list h =>
    have hfault := (DataList.isDataList_iff list).mp h
    have hread : Shape.read (',' :: list) = ⟨none, .data (DataList.read list)⟩ := rfl
    refine ⟨by rw [hread]; exact ⟨hfault, rfl, rfl, rfl⟩, fun {b l} hb => ?_⟩
    have hlabelled : readLabelled l (b ++ ',' :: list) = ⟨some l, .data (DataList.read list)⟩ := by
      unfold readLabelled
      rw [Text.skipSpaces_append hb]
      rfl
    rw [hlabelled]
    exact ⟨hfault, rfl, rfl, rfl⟩
  | @named w name t _ _ hname hend h =>
    obtain ⟨hstops, hcolon, hequals⟩ := h.isField.behind hend
    have hread := readName_of_spells hname hstops
    obtain ⟨haccepted, hstatus, hmnemonic⟩ := (Operation.isOperands_iff hname.isName).mp h
    refine ⟨?_, fun {b l} hb => ?_⟩
    · rw [read_name hname, readNamed_operation hread hcolon hequals]
      exact ⟨haccepted, hstatus, rfl, hmnemonic⟩
    · have hbegins := hname.begins.append t
      have hskip := hbegins.skipSpaces_append hb
      rw [readLabelled_operation (by rwa [hskip]) (by rw [hskip]; exact hread) hequals]
      exact ⟨haccepted, hstatus, rfl, hmnemonic⟩

/-- **A statement of the grammar is accepted**, with the status, the label and the mnemonic of its
production. -/
theorem conforms_of_isStatement {t : Text}
    (h : t.IsStatement symbols status label mnemonic) :
    (Shape.read t).Conforms symbols status label mnemonic := by
  cases h with
  | empty hlead =>
    rw [← List.append_nil t, read_lead hlead]
    exact ⟨trivial, rfl, rfl, rfl⟩
  | @equate lead w name b value hlead hname hb hvalue =>
    have hmark : Text.Stops ('=' :: value) := Text.stops_of_mark (by decide) (by decide) value
    -- no colon stands behind the name, so it is no label
    have hhead : ∀ c ∈ (b ++ '=' :: value).head?, c ≠ ':' := by
      refine Expr.forall_head_append (fun c hc => ?_) fun c hc => ?_
      · rcases Text.isSpace_iff.mp (hb c (List.mem_of_mem_head? hc)) with rfl | rfl <;> decide
      · obtain rfl := Option.some.inj hc
        decide
    have hequals : Text.skipSpaces (b ++ '=' :: value) = '=' :: value := by
      rw [Text.skipSpaces_append hb]
      rfl
    obtain ⟨hstatus, hmnemonic⟩ := Operation.status_readLast_equate value
    have hread := readName_of_spells hname (hb.stops hmark)
    rw [read_lead hlead, read_name hname,
      readNamed_equate hread (fun h => hhead ':' h rfl) hequals]
    exact ⟨(Operation.readLast_iff fun _ _ => Iff.rfl).mp hvalue, hstatus, rfl, hmnemonic⟩
  | unlabelled hlead h =>
    rw [read_lead hlead]
    exact (conforms_of_isOperation h).1
  | @label lead w l b hlead hlabel hb =>
    have hread : readLabelled l b = ⟨some l, .empty⟩ := by
      unfold readLabelled
      rw [hb.skipSpaces_eq]
    rw [read_lead hlead, read_label hlabel, hread]
    exact ⟨trivial, rfl, rfl, rfl⟩
  | labelled hlead hlabel hb h =>
    rw [read_lead hlead, read_label hlabel]
    exact (conforms_of_isOperation h).2 hb

end Statements

end Shape

/-- **The statements that are accepted in the first pass are those of the grammar**, and each has
the status, the label and the mnemonic of its production. -/
theorem Reading.isStatement_iff (symbols : SymbolTable) (pc : Int) (t : Text) (status : Status)
    (label mnemonic : Option Text) :
    t.IsStatement symbols status label mnemonic ↔
      (Reading.ofText ⟨symbols, pc, .first⟩ t).status.error? = none ∧
      (Reading.ofText ⟨symbols, pc, .first⟩ t).status = status ∧
      (Reading.ofText ⟨symbols, pc, .first⟩ t).label = label ∧
      (Reading.ofText ⟨symbols, pc, .first⟩ t).instruction.map (·.mnemonic) = mnemonic := by
  have hfirst : (⟨symbols, pc, .first⟩ : Context).pass.isFinal = false := rfl
  have herror := Shape.error_resolve_first hfirst (Shape.tidy_read t)
  have hlabel := Shape.label_resolve ⟨symbols, pc, .first⟩ (Shape.read t)
  have hinstruction := congrArg (Option.map Instruction.mnemonic)
    (Shape.instruction_resolve ⟨symbols, pc, .first⟩ (Shape.read t))
  have hstatus : (Reading.ofText ⟨symbols, pc, .first⟩ t).status.error? = none →
      (Reading.ofText ⟨symbols, pc, .first⟩ t).status = (Shape.read t).operation.status := by
    intro h
    -- a status is that of the form or an error
    rcases Shape.status_resolve ⟨symbols, pc, .first⟩ (Shape.read t) with hs | ⟨d, hs⟩
    · exact hs
    · unfold Reading.ofText at h
      rw [hs] at h
      cases h
  constructor
  · intro h
    have hconforms := Shape.conforms_of_isStatement h
    have hok := herror.mpr hconforms.accepted
    exact ⟨hok, (hstatus hok).trans hconforms.status, hlabel.trans hconforms.label,
      hinstruction.trans hconforms.mnemonic⟩
  · rintro ⟨hok, hstatus', hlabel', hmnemonic⟩
    exact Shape.isStatement_of_read ⟨herror.mp hok, (hstatus hok).symm.trans hstatus',
      hlabel.symm.trans hlabel', hinstruction.symm.trans hmnemonic⟩

end Cosmac
