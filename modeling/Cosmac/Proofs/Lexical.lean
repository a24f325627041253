import Cosmac.Proofs.Uppercase
import Cosmac.Statement.Shape
import Mathlib.Algebra.Group.Nat.Defs
import Mathlib.Tactic.SplitIfs

/-!
# What the readers can find

Whatever the text,

* a name that is read from it consists of digits and upper-case letters, so it is its own upper
  case (`Text.upper_of_isName`);
* a constant has the digits of its base, and its value is a word;
* a fault is one of the text alone: none of those that it takes the symbols, the location counter
  or another reading to find (`Kind.Contextual`).

All of this is carried from the tokens up to whole statements by one predicate, `Tidy`, with a lemma
for each reader; `Shape.tidy_read` is the last.
-/

namespace Cosmac

/-! ### Names -/

/-- The text consists of digits and upper-case letters. -/
def Text.IsName (t : Text) : Prop := ∀ c ∈ t, Token.isNameChar c = true

theorem Text.isUpper_iff (c : Char) : c.isUpper = true ↔ 65 ≤ c.toNat ∧ c.toNat ≤ 90 := by
  show decide ('A'.val ≤ c.val ∧ c.val ≤ 'Z'.val) = true ↔ _
  rw [decide_eq_true_iff, UInt32.le_iff_toNat_le, UInt32.le_iff_toNat_le]
  rfl

/-- The codes of digits and capitals. -/
theorem Text.toNat_of_isNameChar {c : Char} (h : Token.isNameChar c = true) :
    48 ≤ c.toNat ∧ c.toNat ≤ 57 ∨ 65 ≤ c.toNat ∧ c.toNat ≤ 90 := by
  rcases Bool.or_eq_true_iff.mp h with h | h
  · left
    simpa [Char.isDigit, UInt32.le_iff_toNat_le] using h
  · exact Or.inr ((isUpper_iff c).mp h)

/-- Digits and capitals have no other upper case. -/
theorem Text.upperChar_of_isNameChar {c : Char} (h : Token.isNameChar c = true) :
    Text.upperChar c = [c] := by
  have hrange := toNat_of_isNameChar h
  have hascii : c.toNat < 128 := by omega
  have hupper : c.toUpper = c := by
    unfold Char.toUpper
    rw [dif_neg]
    -- a small letter would lie beyond the capitals
    rintro ⟨hlow, _⟩
    have hlow' : 97 ≤ c.toNat := UInt32.le_iff_toNat_le.mp hlow
    omega
  unfold Text.upperChar
  rw [if_pos hascii, hupper]

/-- **A name is its own upper case.** -/
theorem Text.upper_of_isName {t : Text} (h : t.IsName) : Text.upper t = t := by
  unfold Text.upper
  induction t with
  | nil => rfl
  | cons c rest ih =>
    have hrest : Text.IsName rest := fun d hd => h d (List.mem_cons_of_mem _ hd)
    rw [List.flatMap_cons, upperChar_of_isNameChar (h c (List.mem_cons_self ..)), ih hrest]
    rfl

/-! ### Digits -/

namespace Token

/-- One to eight binary digits. -/
def IsBinary (digits : Text) : Prop :=
  1 ≤ digits.length ∧ digits.length ≤ 8 ∧ digits.all isBinaryDigit

/-- One to five decimal digits of a number up to 65535. -/
def IsDecimal (digits : Text) : Prop :=
  1 ≤ digits.length ∧ digits.length ≤ 5 ∧ digits.all Char.isDigit ∧ number 10 digits ≤ 0xFFFF

/-- One to four hexadecimal digits. -/
def IsHex (digits : Text) : Prop :=
  1 ≤ digits.length ∧ digits.length ≤ 4 ∧ digits.all isHexDigit

instance (digits : Text) : Decidable (IsBinary digits) :=
  inferInstanceAs (Decidable (_ ∧ _ ∧ _))

instance (digits : Text) : Decidable (IsDecimal digits) :=
  inferInstanceAs (Decidable (_ ∧ _ ∧ _ ∧ _))

instance (digits : Text) : Decidable (IsHex digits) :=
  inferInstanceAs (Decidable (_ ∧ _ ∧ _))

/-- The check brings the word into upper case once more, which changes nothing. -/
theorem isHexWord_upper (t : Text) : isHexWord (Text.upper t) = true ↔ IsHex (Text.upper t) := by
  unfold isHexWord IsHex
  rw [Text.upper_upper, Bool.and_eq_true, Bool.and_eq_true, decide_eq_true_eq, decide_eq_true_eq,
    and_assoc]

theorem isHexWord_of_isName {t : Text} (h : t.IsName) : isHexWord t = true ↔ IsHex t := by
  have hupper := isHexWord_upper t
  rwa [Text.upper_of_isName h] at hupper

/-- Digits below the base make a number with as many digits. -/
theorem number_lt {base : Nat} {digits : Text} (h : ∀ c ∈ digits, digitValue c < base) :
    number base digits < base ^ digits.length := by
  -- the invariant of the fold: after `k` digits the value is below `base ^ k`
  have hfold : ∀ (digits : Text) (n k : Nat), (∀ c ∈ digits, digitValue c < base) →
      n < base ^ k →
      digits.foldl (fun value c => base * value + digitValue c) n < base ^ (k + digits.length) := by
    intro digits
    induction digits with
    | nil => exact fun n k _ hn => hn
    | cons c rest ih =>
      intro n k hdigits hn
      obtain ⟨hc, hrest⟩ := List.forall_mem_cons.mp hdigits
      have hnext : base * n + digitValue c < base ^ (k + 1) := by
        calc base * n + digitValue c < base * n + base := Nat.add_lt_add_left hc _
          _ = base * (n + 1) := rfl
          _ ≤ base * base ^ k := Nat.mul_le_mul_left _ hn
          _ = base ^ (k + 1) := by rw [Nat.pow_succ, Nat.mul_comm]
      have hsum : k + (c :: rest).length = k + 1 + rest.length := by
        rw [List.length_cons]
        omega
      rw [List.foldl_cons, hsum]
      exact ih _ _ hrest hnext
  have hzero := hfold digits 0 0 h (by rw [Nat.pow_zero]; exact Nat.zero_lt_one)
  rwa [Nat.zero_add] at hzero

theorem digitValue_of_isBinaryDigit {c : Char} (h : isBinaryDigit c = true) :
    digitValue c < 2 := by
  rcases Bool.or_eq_true_iff.mp h with h | h <;> rw [beq_iff_eq.mp h] <;> decide

/-- A hexadecimal digit has a value below 16. -/
theorem digitValue_of_isHexDigit {c : Char} (h : isHexDigit c = true) : digitValue c < 16 := by
  simp only [isHexDigit, Bool.or_eq_true, Bool.and_eq_true, decide_eq_true_eq] at h
  have hzero : '0'.toNat = 48 := rfl
  have hA : 'A'.toNat = 65 := rfl
  unfold digitValue
  split_ifs with hdigit
  · -- a decimal digit
    have hrange : c.toNat ≤ 57 := by
      have : 48 ≤ c.toNat ∧ c.toNat ≤ 57 := by
        simpa [Char.isDigit, UInt32.le_iff_toNat_le] using hdigit
      exact this.2
    omega
  · -- a letter up to `F`
    obtain ⟨_, hhigh⟩ := h.resolve_left hdigit
    have hle : c.toNat ≤ 70 := UInt32.le_iff_toNat_le.mp hhigh
    omega

/-- Eight binary digits make a byte. -/
theorem IsBinary.number_lt {digits : Text} (h : IsBinary digits) : number 2 digits < 0x100 := by
  obtain ⟨_, hlength, hdigits⟩ := h
  have hlt := Token.number_lt fun c hc =>
    digitValue_of_isBinaryDigit (List.all_eq_true.mp hdigits c hc)
  exact Nat.lt_of_lt_of_le hlt (Nat.pow_le_pow_right (by decide) hlength)

/-- Four hexadecimal digits make a word. -/
theorem IsHex.number_lt {digits : Text} (h : IsHex digits) : number 16 digits < 0x10000 := by
  obtain ⟨_, hlength, hdigits⟩ := h
  have hlt := Token.number_lt fun c hc =>
    digitValue_of_isHexDigit (List.all_eq_true.mp hdigits c hc)
  exact Nat.lt_of_lt_of_le hlt (Nat.pow_le_pow_right (by decide) hlength)

/-- A string stands for a byte, also the empty one. -/
theorem firstByte_lt (s : Text) : firstByte s < 0x100 := by
  cases s with
  | nil => decide
  | cons c _ => exact Nat.mod_lt _ (by decide)

end Token

/-! ### Tokens -/

/-- What a reader returns is good, or the fault that it reports is. -/
def Reads {α β : Type} (good : β → Prop) (fair : α → Prop) : Except α β → Prop
  | .ok b => good b
  | .error a => fair a

/-- The faults that are not found in the text of a statement alone. -/
inductive Kind.Contextual : Kind → Prop
  | undefinedSymbol : Contextual .undefinedSymbol
  | duplicateSymbol : Contextual .duplicateSymbol
  | branchOutOfPage : Contextual .branchOutOfPage
  | sizeChanged : Contextual .sizeChanged

/-- The fault can be found in the text of a statement. -/
def Kind.Tidy (kind : Kind) : Prop := ¬ kind.Contextual

/-- A word is a name, a constant has its digits, a string is not empty, and the fault of a malformed
token is one of the text. -/
def Token.Tidy : Token → Prop
  | .empty => True
  | .malformed kind _ => kind.Tidy
  | .string s => s ≠ []
  | .binary digits => IsBinary digits
  | .decimal digits => IsDecimal digits
  | .hex digits => IsHex digits
  | .word w => w.IsName

namespace Token

theorem tidy_ofBinary (digits : Text) : (ofBinary digits).Tidy := by
  unfold ofBinary
  split_ifs with h
  · exact h
  · exact nofun

theorem tidy_ofDecimal (digits : Text) : (ofDecimal digits).Tidy := by
  unfold ofDecimal
  split_ifs with h
  · exact h
  · exact nofun

theorem tidy_ofHex (t : Text) : (ofHex (Text.upper t)).Tidy := by
  unfold ofHex
  split_ifs with h
  · exact (isHexWord_upper t).mp h
  · exact nofun

theorem tidy_ofString (body : Text) : (ofString body).Tidy := by
  cases body with
  | nil => exact nofun
  | cons => exact List.cons_ne_nil _ _

theorem tidy_ofWord (word : Text) : (ofWord word).Tidy := by
  unfold ofWord
  split_ifs with h
  · exact fun c hc => List.all_eq_true.mp h c hc
  · exact nofun

/-- What stands between quotes is checked by the rule of its mark. -/
theorem tidy_ofLiteral (mark : Text) (span : QuotedSpan) : (ofLiteral mark span).Tidy := by
  unfold ofLiteral
  dsimp only
  -- the four marks, each with its quote closed or not, and every other word before a quote
  split
  · split_ifs
    · exact tidy_ofBinary _
    · exact nofun
  · split_ifs
    · exact tidy_ofDecimal _
    · exact nofun
  · split_ifs
    · exact tidy_ofString _
    · exact nofun
  · split_ifs
    · exact tidy_ofHex _
    · exact nofun
  · exact nofun

theorem tidy_nextWord (word rest : Text) : (nextWord word rest).1.Tidy := by
  unfold nextWord
  split
  · trivial
  · split_ifs
    · unfold nextNamed
      split
      · exact tidy_ofLiteral _ _
      · exact tidy_ofWord _
    · exact tidy_ofDecimal _

/-- **Every token is tidy**, whatever text it is scanned from. -/
theorem tidy_next (t : Text) : (next t).1.Tidy := by
  unfold next
  split
  · trivial
  · -- the fault of a quote is one of the text, closed or not
    dsimp only
    split_ifs <;> exact nofun
  · exact tidy_ofHex _
  · exact tidy_nextWord _ _

end Token

/-! ### Expressions -/

/-- A constant is a word, a character a byte, and a name is one. -/
def Term.Tidy : Term → Prop
  | .here => True
  | .constant n => n < 0x10000
  | .character b => b < 0x100
  | .name n => n.IsName

/-- A number is a word, and a name is one. -/
def RegisterTerm.Tidy : RegisterTerm → Prop
  | .value n => n < 0x10000
  | .name n => n.IsName

/-- The term before the fault and the fault itself are tidy. -/
structure Break.Tidy (b : Break) : Prop where
  /-- The term. -/
  term : ∀ t ∈ b.term, t.Tidy
  /-- The fault. -/
  kind : b.kind.Tidy

/-- The value of a tidy token is a word. -/
theorem Token.Tidy.value_lt {token : Token} (h : token.Tidy) {n : Nat}
    (hn : token.value? = some n) : n < 0x10000 := by
  cases token with
  | binary digits =>
    obtain rfl := Option.some.inj hn
    exact Nat.lt_trans h.number_lt (by decide)
  | decimal digits =>
    obtain rfl := Option.some.inj hn
    -- a decimal constant was compared with the last word when it was made
    exact Nat.lt_succ_of_le h.2.2.2
  | hex digits =>
    obtain rfl := Option.some.inj hn
    exact h.number_lt
  | string s =>
    obtain rfl := Option.some.inj hn
    exact Nat.lt_trans (Token.firstByte_lt s) (by decide)
  | empty | malformed | word => cases hn

/-- A term that is read is tidy, and so is the fault where none is. -/
theorem Term.tidy_read (t : Text) : Reads Term.Tidy Kind.Tidy (Term.read t).1 := by
  have hnext := Token.tidy_next t
  unfold Term.read
  split
  · trivial
  · -- one case for each token
    split <;> rename_i htoken <;> rw [htoken] at hnext
    · exact nofun
    · exact hnext
    · exact Token.firstByte_lt _
    · exact hnext.value_lt rfl
    · exact hnext.value_lt rfl
    · exact hnext.value_lt rfl
    · exact hnext

theorem RegisterTerm.tidy_read (t : Text) :
    Reads RegisterTerm.Tidy Kind.Tidy (RegisterTerm.read t).1 := by
  have hnext := Token.tidy_next (Text.skipSpaces t)
  unfold RegisterTerm.read
  split <;> rename_i htoken <;> rw [htoken] at hnext
  · exact nofun
  · exact hnext
  · exact hnext.value_lt rfl
  · exact hnext.value_lt rfl
  · exact hnext.value_lt rfl
  · exact hnext.value_lt rfl
  · exact hnext

namespace Expr

/-- The faults of a form are those of the text. -/
theorem tidy_readSelector (t : Text) :
    Reads (fun _ => True) Kind.Tidy (readSelector t).1 := by
  unfold readSelector
  split
  · split_ifs <;> trivial
  · split_ifs
    · split
      · trivial
      · trivial
      · exact nofun
      · exact nofun
      · exact nofun
    · trivial
  · trivial

/-- What is no constant is reported as a fault of the text. -/
theorem tidy_readConstant (t : Text) : Reads (fun _ => True) Kind.Tidy (readConstant t).1 := by
  have hnext := Token.tidy_next t
  unfold readConstant
  split <;> rename_i htoken
  · rw [htoken] at hnext
    -- the fault of a malformed token is kept, but a word that is no name is a missing constant
    show Kind.Tidy (if _ then _ else _)
    split_ifs
    · exact nofun
    · exact hnext
  · trivial
  · trivial
  · trivial
  · exact nofun

theorem tidy_readOffset (t : Text) : Reads (fun _ => True) Kind.Tidy (readOffset t).1 := by
  unfold readOffset
  split
  · rename_i rest
    have hconstant := tidy_readConstant rest
    split <;> rename_i h <;> rw [h] at hconstant <;> exact hconstant
  · rename_i rest
    have hconstant := tidy_readConstant rest
    split <;> rename_i h <;> rw [h] at hconstant <;> exact hconstant
  · trivial

theorem tidy_readHead (t : Text) : Reads (fun head => head.2.Tidy) Kind.Tidy (readHead t).1 := by
  have hselector := tidy_readSelector (Text.skipSpaces t)
  unfold readHead
  split <;> rename_i h <;> rw [h] at hselector
  · exact hselector
  · rename_i rest
    have hterm := Term.tidy_read (Text.skipSpaces rest)
    split <;> rename_i h' <;> rw [h'] at hterm <;> exact hterm

theorem tidy_readTail (selector : Selector) (t : Text) :
    Reads (fun _ => True) Kind.Tidy (readTail selector t).1 := by
  have hoffset := tidy_readOffset t
  unfold readTail
  split <;> rename_i h <;> rw [h] at hoffset
  · exact hoffset
  · split_ifs
    · trivial
    · split
      · trivial
      · exact nofun

/-- An expression has a tidy term, and a fault comes with the term before it, if there is one. -/
theorem tidy_read (t : Text) : Reads (fun e => e.term.Tidy) Break.Tidy (read t).1 := by
  have hhead := tidy_readHead t
  unfold read
  split <;> rename_i h <;> rw [h] at hhead
  · -- a fault in the head, so there is no term
    exact ⟨nofun, hhead⟩
  · rename_i selector term rest
    have htail := tidy_readTail selector rest
    split <;> rename_i h' <;> rw [h'] at htail
    · -- a fault behind the term, which is kept
      refine ⟨fun t ht => ?_, htail⟩
      obtain rfl := Option.some.inj ht
      exact hhead
    · exact hhead

end Expr

/-! ### Data lists -/

/-- The term of the item is tidy. -/
def Item.Tidy : Item → Prop
  | .expression e => e.term.Tidy
  | .string _ => True

/-- The items are tidy, and so is the fault behind them. -/
structure DataList.Tidy (list : DataList) : Prop where
  /-- The items. -/
  items : ∀ item ∈ list.items, item.Tidy
  /-- The fault. -/
  fault : ∀ b ∈ list.fault, b.Tidy

theorem Item.tidy_readExpression (t : Text) :
    Reads Item.Tidy Break.Tidy (Item.readExpression t).1 := by
  have hread := Expr.tidy_read t
  unfold Item.readExpression
  split <;> rename_i h <;> rw [h] at hread <;> exact hread

/-- An item of a data list is tidy. -/
theorem Item.tidy_read (t : Text) : Reads Item.Tidy Break.Tidy (Item.read t).1 := by
  unfold Item.read
  split
  · split_ifs
    · exact Item.tidy_readExpression t
    · trivial
  · exact Item.tidy_readExpression t

/-- What may not stand behind a statement is a fault of the text. -/
theorem tidy_unexpected (c : Char) : (unexpected c).Tidy := by
  unfold unexpected
  split_ifs <;> exact nofun

theorem DataList.tidy_nil : DataList.Tidy {} := ⟨fun _ h => absurd h List.not_mem_nil, nofun⟩

theorem DataList.tidy_of_fault {b : Break} (h : b.Tidy) : DataList.Tidy ⟨[], some b⟩ := by
  refine ⟨fun _ h => absurd h List.not_mem_nil, fun b' hb' => ?_⟩
  obtain rfl := Option.some.inj hb'
  exact h

theorem DataList.tidy_cons {item : Item} {list : DataList} (hitem : item.Tidy) (hlist : list.Tidy) :
    (list.cons item).Tidy := by
  refine ⟨fun item' h => ?_, hlist.fault⟩
  rcases List.mem_cons.mp h with rfl | h
  · exact hitem
  · exact hlist.items item' h

/-- **A data list is tidy**: all of its items, and the fault where reading broke off. -/
theorem DataList.tidy_read (t : Text) : (DataList.read t).Tidy := by
  fun_induction DataList.read t with
  | case1 t fault rest hread =>
    -- reading breaks off in an item
    have h := Item.tidy_read (Text.skipSpaces t)
    rw [hread] at h
    exact tidy_of_fault h
  | case2 t item rest hread hend =>
    -- the list ends
    have h := Item.tidy_read (Text.skipSpaces t)
    rw [hread] at h
    exact @tidy_cons item {} h tidy_nil
  | case3 t item rest hread more hbehind ih =>
    -- a comma, and the list goes on
    have h := Item.tidy_read (Text.skipSpaces t)
    rw [hread] at h
    exact tidy_cons h ih
  | case4 t item rest hread c more hbehind hcomma =>
    -- something else stands behind an item
    have h := Item.tidy_read (Text.skipSpaces t)
    rw [hread] at h
    have hfault : DataList.Tidy ⟨[], some ⟨none, unexpected c⟩⟩ :=
      tidy_of_fault ⟨nofun, tidy_unexpected c⟩
    exact tidy_cons h hfault

/-- The data behind an instruction is tidy. -/
theorem DataList.tidy_readTrailer (t : Text) : (DataList.readTrailer t).Tidy := by
  unfold DataList.readTrailer
  split
  · exact tidy_nil
  · exact tidy_read _
  · exact tidy_of_fault ⟨nofun, tidy_unexpected _⟩

/-! ### Statements -/

/-- The term of the operand is tidy. -/
def Argument.Tidy : Argument → Prop
  | .none => True
  | .register term => term.Tidy
  | .expression e => e.term.Tidy

/-- The operand is good, or the fault in it is tidy. -/
def Operand.Tidy {α : Type} (good : α → Prop) : Operand α → Prop
  | .broken b => b.Tidy
  | .read a => good a

/-- All terms are tidy, and all faults are those of the text. -/
def Operation.Tidy : Operation → Prop
  | .data list => list.Tidy
  | .equate operand fault | .origin operand fault =>
    operand.Tidy (fun e => e.term.Tidy) ∧ ∀ kind ∈ fault, kind.Tidy
  | .instruction _ operand list => operand.Tidy Argument.Tidy ∧ list.Tidy
  | .malformed d => d.kind.Tidy
  | .empty | .page | .finish => True

/-- Registers and expressions are tidy operands. -/
theorem Argument.tidy_read (kind : OperandKind) (t : Text) :
    (Argument.read kind t).1.Tidy Argument.Tidy := by
  have hregister : (Argument.readRegister t).1.Tidy Argument.Tidy := by
    have hread := RegisterTerm.tidy_read t
    unfold Argument.readRegister
    split <;> rename_i h <;> rw [h] at hread
    · exact ⟨nofun, hread⟩
    · exact hread
  have hexpression : (Argument.readExpression t).1.Tidy Argument.Tidy := by
    have hread := Expr.tidy_read t
    unfold Argument.readExpression
    split <;> rename_i h <;> rw [h] at hread <;> exact hread
  cases kind with
  | none => trivial
  | register | nonzeroRegister | device => exact hregister
  | immediate | shortAddress | longAddress => exact hexpression

namespace Operation

theorem tidy_trailing (t : Text) : ∀ kind ∈ trailing t, kind.Tidy := by
  intro kind hkind
  obtain ⟨c, _, rfl⟩ := Option.map_eq_some_iff.mp hkind
  exact tidy_unexpected c

/-- What `ORG` and equates make of a tidy expression is tidy. -/
theorem tidy_readLast (t : Text) {make : Operand Expr → Option Kind → Operation}
    (hmake : ∀ operand fault, Operand.Tidy (fun e => e.term.Tidy) operand →
      (∀ kind ∈ fault, Kind.Tidy kind) → (make operand fault).Tidy) :
    (readLast make t).Tidy := by
  have hread := Expr.tidy_read t
  unfold readLast
  split <;> rename_i h <;> rw [h] at hread
  · exact hmake _ _ hread nofun
  · exact hmake _ _ hread (tidy_trailing _)

theorem tidy_readBare {operation : Operation} (t : Text) (h : operation.Tidy) :
    (readBare operation t).Tidy := by
  unfold readBare
  split_ifs
  · exact h
  · exact nofun

/-- The operand of an instruction is tidy, and so is the data behind it. -/
theorem tidy_readInstruction (i : Instruction) (t : Text) : (readInstruction i t).Tidy := by
  have hread := Argument.tidy_read i.operand t
  unfold readInstruction
  split <;> rename_i h <;> rw [h] at hread
  · exact ⟨hread, DataList.tidy_nil⟩
  · exact ⟨hread, DataList.tidy_readTrailer _⟩

/-- Every operation is tidy: data, the directives and the instructions. -/
theorem tidy_read (name t : Text) : (Operation.read name t).Tidy := by
  unfold Operation.read
  split_ifs
  · exact DataList.tidy_read t
  · exact tidy_readLast t fun _ _ hoperand hfault => ⟨hoperand, hfault⟩
  · exact tidy_readBare t trivial
  · exact tidy_readBare t trivial
  · -- a name is an instruction or unknown
    split
    · exact nofun
    · exact tidy_readInstruction _ t

end Operation

namespace Shape

/-- A name at the start of a statement is one, or the fault is one of the text. -/
theorem tidy_readName (t : Text) : Reads Text.IsName Kind.Tidy (readName t).1 := by
  cases t with
  | nil => exact nofun
  | cons c rest =>
    have hnext := Token.tidy_next (c :: rest)
    unfold readName
    dsimp only
    split_ifs
    · exact nofun
    · exact nofun
    · -- behind a letter stands a name, a malformed token or a literal
      generalize Token.next (c :: rest) = next at hnext
      obtain ⟨token, behind⟩ := next
      cases token with
      | malformed kind text => exact hnext
      | word name => exact hnext
      | _ => exact nofun

/-- What stands behind a label is tidy. -/
theorem tidy_readLabelled (label t : Text) : (readLabelled label t).operation.Tidy := by
  unfold readLabelled
  split
  · trivial
  · exact DataList.tidy_read _
  · have hname := tidy_readName (Text.skipSpaces t)
    split <;> rename_i h <;> rw [h] at hname
    · exact hname
    · split
      · exact nofun
      · exact Operation.tidy_read _ _

/-- A statement that starts with a name is tidy: with a label, as an equate or as an operation. -/
theorem tidy_readNamed (t : Text) : (readNamed t).operation.Tidy := by
  have hname := tidy_readName t
  unfold readNamed
  split <;> rename_i h <;> rw [h] at hname
  · exact hname
  · exact tidy_readLabelled _ _
  · split
    · exact Operation.tidy_readLast _ fun _ _ hoperand hfault => ⟨hoperand, hfault⟩
    · exact Operation.tidy_read _ _

/-- **Every statement is tidy**: its names are names, its constants are words, and its faults are
those of the text. -/
theorem tidy_read (t : Text) : (Shape.read t).operation.Tidy := by
  unfold Shape.read
  split
  · trivial
  · exact DataList.tidy_read _
  · exact tidy_readNamed _

end Shape

end Cosmac
