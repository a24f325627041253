import Cosmac.Expr.Eval
import Cosmac.Numeral.Literal
import Cosmac.Proofs.Extension
import Cosmac.Proofs.Spelling
import Mathlib.Data.List.TakeWhile

/-!
# Texts as numbers

A constant is kept as its digits, and a name may stand for a hexadecimal number.  Reading a number
from a text can fail, since a text may hold anything; `Numeral.integer?` says when it does.  Where
the assembler reads one it never fails, and gives the number that `Token.number` does:

* `IsNumber.integer?_eq`: one to eight digits of a base are read as a number;
* `Token.convert_next`: the digits of a constant are of this kind, and a string has a first
  character;
* `Token.integer?_hexWord`: so are names that are taken for numbers;
* `Text.convertible`: all readers and evaluators that convert something, with the conversions in
  their place.

Upper case makes two letters of `ﬀ`, and both are digits.  So it matters that a text is measured and
looked at in the form in which it is converted; `Token.tidy_next` says so for tokens.
-/

namespace Cosmac

/-! ### Digits that are a number -/

namespace Token

/-- The digits of a constant. -/
def hexDigits : Text := "0123456789ABCDEF".toList

/-- The hexadecimal digits are those sixteen characters. -/
theorem mem_hexDigits {c : Char} (h : isHexDigit c = true) : c ∈ hexDigits := by
  have hlt : c.toNat < 71 := by
    simp only [isHexDigit, Bool.or_eq_true, Bool.and_eq_true, decide_eq_true_eq] at h
    rcases h with h | ⟨_, h⟩
    · exact Nat.lt_of_le_of_lt (Char.isDigit_iff_toNat.mp h).2 (by decide)
    · exact Nat.lt_succ_of_le (UInt32.le_iff_toNat_le.mp h)
  -- all codes up to that of `F` are looked at
  revert h
  refine Text.of_forall_lt hlt ?_
  decide

/-- A digit has its value in every base that it belongs to. -/
theorem digit?_of_mem {base : Nat} (hbase : base ∈ [2, 10, 16]) {c : Char} (hc : c ∈ hexDigits)
    (h : digitValue c < base) : Numeral.digit? base c = some (digitValue c) := by
  have hall : ([2, 10, 16].all fun base => hexDigits.all fun c =>
      !decide (digitValue c < base) || Numeral.digit? base c == some (digitValue c)) = true := by
    decide
  have hdigit := List.all_eq_true.mp (List.all_eq_true.mp hall base hbase) c hc
  rw [decide_eq_true h] at hdigit
  exact beq_iff_eq.mp hdigit

/-- A digit is no blank, and not the letter of a mark. -/
theorem isNumberBlank_of_mem {c : Char} (hc : c ∈ hexDigits) :
    Numeral.isNumberBlank c = false ∧ (c == 'x' || c == 'X') = false := by
  have hall : (hexDigits.all fun c =>
      !Numeral.isNumberBlank c && !(c == 'x' || c == 'X')) = true := by decide
  have hdigit := List.all_eq_true.mp hall c hc
  rw [Bool.and_eq_true, Bool.not_eq_true', Bool.not_eq_true'] at hdigit
  exact hdigit

/-- Some digits of the base, and not too many for a number. -/
structure IsNumber (base : Nat) (digits : Text) : Prop where
  base_mem : base ∈ [2, 10, 16]
  ne_nil : digits ≠ []
  length : digits.length ≤ 8
  digits_mem : ∀ c ∈ digits, c ∈ hexDigits ∧ digitValue c < base

/-- The digits of a binary constant are a number. -/
theorem IsBinary.isNumber {digits : Text} (h : IsBinary digits) : IsNumber 2 digits where
  base_mem := by decide
  ne_nil := List.ne_nil_of_length_pos h.1
  length := h.2.1
  digits_mem c hc := by
    have hdigit := List.all_eq_true.mp h.2.2 c hc
    refine ⟨?_, digitValue_of_isBinaryDigit hdigit⟩
    rcases Bool.or_eq_true_iff.mp hdigit with h | h <;> rw [beq_iff_eq.mp h] <;> decide

theorem digitValue_of_isDigit {c : Char} (h : c.isDigit = true) : digitValue c < 10 := by
  have hle : c.toNat ≤ 57 := (Char.isDigit_iff_toNat.mp h).2
  have hzero : '0'.toNat = 48 := rfl
  unfold digitValue
  rw [if_pos h]
  omega

/-- Up to five decimal digits are a number, also where it is too large for a word. -/
theorem isNumber_of_all_isDigit {digits : Text} (hpos : 1 ≤ digits.length)
    (hlength : digits.length ≤ 5) (hdigits : digits.all Char.isDigit = true) :
    IsNumber 10 digits where
  base_mem := by decide
  ne_nil := List.ne_nil_of_length_pos hpos
  length := Nat.le_trans hlength (by decide)
  digits_mem c hc := by
    have hdigit := List.all_eq_true.mp hdigits c hc
    exact ⟨mem_hexDigits (Bool.or_eq_true_iff.mpr (Or.inl hdigit)), digitValue_of_isDigit hdigit⟩

/-- The digits of a hexadecimal constant are a number. -/
theorem IsHex.isNumber {digits : Text} (h : IsHex digits) : IsNumber 16 digits where
  base_mem := by decide
  ne_nil := List.ne_nil_of_length_pos h.1
  length := Nat.le_trans h.2.1 (by decide)
  digits_mem c hc := by
    have hdigit := List.all_eq_true.mp h.2.2 c hc
    exact ⟨mem_hexDigits hdigit, digitValue_of_isHexDigit hdigit⟩

/-- Digits of the base are all taken, one by one. -/
theorem digits?_eq {base : Nat} (hbase : base ∈ [2, 10, 16]) {digits : Text} (hne : digits ≠ [])
    (hdigits : ∀ c ∈ digits, c ∈ hexDigits ∧ digitValue c < base) :
    Numeral.digits? base digits = some (digits.map digitValue) := by
  have hdigit : ∀ c ∈ digits, Numeral.digit? base c = some (digitValue c) := fun c hc =>
    digit?_of_mem hbase (hdigits c hc).1 (hdigits c hc).2
  fun_induction Numeral.digits? base digits with
  | case1 => exact absurd rfl hne
  | case2 c =>
    rw [hdigit c (List.mem_singleton_self c)]
    rfl
  | case3 c rest _ =>
    -- no digit is an underscore
    have hmem : '_' ∈ c :: '_' :: rest := List.mem_cons_of_mem _ (List.mem_cons_self ..)
    exact absurd (hdigits '_' hmem).1 (by decide)
  | case4 c rest hrest _ ih =>
    rw [ih hrest (fun d hd => hdigits d (List.mem_cons_of_mem _ hd))
        (fun d hd => hdigit d (List.mem_cons_of_mem _ hd)), hdigit c (List.mem_cons_self ..)]
    rfl

/-- The digits' values make the number of the constant. -/
@[simp] theorem ofDigits_map (base : Nat) (digits : Text) :
    Numeral.ofDigits base (digits.map digitValue) = number base digits :=
  List.foldl_map

namespace IsNumber

variable {base : Nat} {digits : Text}

/-- Digits without a sign are read as their number, in each of the three bases. -/
theorem unsigned?_eq (h : IsNumber base digits) :
    Numeral.unsigned? base digits = some (number base digits) := by
  have hfew : (base == 10 && decide (Numeral.maxDecimalDigits < (digits.map digitValue).length))
      = false := by
    have hlength := h.length
    rw [List.length_map, decide_eq_false (by unfold Numeral.maxDecimalDigits; omega),
      Bool.and_false]
  have hdigits := digits?_eq h.base_mem h.ne_nil h.digits_mem
  unfold Numeral.unsigned?
  match digits, h.ne_nil with
  | [c], _ =>
    simp only [hdigits, hfew, Bool.false_eq_true, if_false, ofDigits_map]
  | c :: d :: rest, _ =>
    -- the second digit is no `X`, so the digits have no mark before them
    have hd := (h.digits_mem d (List.mem_cons_of_mem _ (List.mem_cons_self ..))).1
    have hx := (isNumberBlank_of_mem hd).2
    simp only [hx, Bool.and_false, Bool.false_eq_true, if_false, hdigits, hfew, ofDigits_map]

/-- **Digits are read as the number that they stand for.** -/
theorem integer?_eq (h : IsNumber base digits) :
    Numeral.integer? base digits = some (number base digits : Int) := by
  have hblank : ∀ c ∈ digits, Numeral.isNumberBlank c = false := fun c hc =>
    (isNumberBlank_of_mem (h.digits_mem c hc).1).1
  have hkept : ∀ t : Text, (∀ c ∈ t, Numeral.isNumberBlank c = false) →
      t.dropWhile Numeral.isNumberBlank = t := fun t ht =>
    List.dropWhile_eq_self_iff.mpr fun hpos => Bool.eq_false_iff.mp (ht _ (List.getElem_mem hpos))
  unfold Numeral.integer? Text.dropTail
  rw [hkept digits hblank, hkept digits.reverse fun c hc => hblank c (List.mem_reverse.mp hc),
    List.reverse_reverse]
  -- no digit is a sign
  split
  · have hsign := (h.digits_mem '+' (List.mem_cons_self ..)).1
    exact absurd hsign (by decide)
  · have hsign := (h.digits_mem '-' (List.mem_cons_self ..)).1
    exact absurd hsign (by decide)
  · rw [h.unsigned?_eq]
    rfl

end IsNumber

/-! ### Conversions -/

/-- The value of a constant or a string, by conversions that refuse what is not a number and what
has no first character. -/
def convert : Token → Option Int
  | .binary digits => Numeral.integer? 2 digits
  | .decimal digits => Numeral.integer? 10 digits
  | .hex digits => Numeral.integer? 16 digits
  | .string s => s.head?.map fun c => (c.toNat % 256 : Nat)
  | .empty | .malformed _ _ | .word _ => none

/-- The decimal constant with these digits, by a conversion that refuses what is not a number. -/
def attemptDecimal (digits : Text) : Option Token :=
  if 1 ≤ digits.length ∧ digits.length ≤ 5 ∧ digits.all Char.isDigit then do
    let n ← Numeral.integer? 10 digits
    return if n ≤ 0xFFFF then .decimal digits else .malformed .invalidDecimal digits
  else some (.malformed .invalidDecimal digits)

/-- **The length and the digits are checked before the conversion**, so that it does not fail. -/
@[simp]
theorem attemptDecimal_eq (digits : Text) : attemptDecimal digits = some (ofDecimal digits) := by
  unfold attemptDecimal ofDecimal
  by_cases h : 1 ≤ digits.length ∧ digits.length ≤ 5 ∧ digits.all Char.isDigit
  · rw [if_pos h, (isNumber_of_all_isDigit h.1 h.2.1 h.2.2).integer?_eq]
    refine congrArg some ?_
    -- the bound is compared after the conversion there and on the digits here
    by_cases hle : number 10 digits ≤ 0xFFFF
    · have hint : (number 10 digits : Int) ≤ 0xFFFF := by omega
      rw [if_pos hint, if_pos ⟨h.1, h.2.1, h.2.2, hle⟩]
    · have hint : ¬(number 10 digits : Int) ≤ 0xFFFF := by omega
      rw [if_neg hint, if_neg fun hall => hle hall.2.2.2]
  · rw [if_neg h, if_neg fun hall => h ⟨hall.1, hall.2.1, hall.2.2.1⟩]

/-- **The conversion of a scanned token does not fail.** -/
theorem convert_next (t : Text) : (next t).1.convert = (next t).1.value?.map Int.ofNat := by
  have htidy := tidy_next t
  cases htoken : (next t).1 with
  | string s =>
    -- a string that is scanned is not empty
    rw [htoken] at htidy
    obtain ⟨c, rest, rfl⟩ := List.exists_cons_of_ne_nil htidy
    rfl
  | binary digits =>
    rw [htoken] at htidy
    exact (IsBinary.isNumber htidy).integer?_eq
  | decimal digits =>
    rw [htoken] at htidy
    obtain ⟨hpos, hlength, hdigits, _⟩ := htidy
    exact (isNumber_of_all_isDigit hpos hlength hdigits).integer?_eq
  | hex digits =>
    rw [htoken] at htidy
    exact (IsHex.isNumber htidy).integer?_eq
  | _ => rfl

/-- A name that is taken for a number is converted. -/
theorem integer?_hexWord {w : Text} (hname : w.IsName) (h : isHexWord w = true) :
    Numeral.integer? 16 w = some (number 16 w : Int) :=
  ((isHexWord_of_isName hname).mp h).isNumber.integer?_eq

end Token

/-! ### Readers -/

/-- The term that a token stands for, by its conversion. -/
def Term.attemptToken : Token → Option (Except Kind Term)
  | .empty => some (.error .missingExpression)
  | .malformed kind _ => some (.error kind)
  | .word w => some (.ok (.name w))
  | .string s => (Token.string s).convert.map fun n => .ok (.character n.toNat)
  | token => token.convert.map fun n => .ok (.constant n.toNat)

/-- Reads a term, by the conversion of its token. -/
def Term.attempt (t : Text) : Option (Except Kind Term × Text) :=
  match t with
  | '*' :: rest => some (.ok .here, rest)
  | _ => (attemptToken (Token.next t).1).map (·, (Token.next t).2)

/-- Where its token is converted, so is the term. -/
theorem Term.attemptToken_eq {token : Token}
    (h : token.convert = token.value?.map Int.ofNat) :
    attemptToken token = some (ofToken token) := by
  cases token with
  | empty | malformed | word => rfl
  | _ =>
    show Option.map _ (Token.convert _) = _
    rw [h]
    rfl

/-- **Reading a term converts without failing.** -/
@[simp] theorem Term.attempt_eq (t : Text) : attempt t = some (read t) := by
  unfold attempt
  split
  · rfl
  next hstar =>
    have hhead : ∀ c ∈ t.head?, c ≠ '*' := by
      rintro _ hc rfl
      obtain ⟨rest, hrest⟩ := List.head?_eq_some_iff.mp hc
      exact hstar rest hrest
    rw [read_eq hhead, attemptToken_eq (Token.convert_next t)]
    rfl

/-- Reads a register or device operand, by the conversion of its token. -/
def RegisterTerm.attempt (t : Text) : Option (Except Kind RegisterTerm × Text) :=
  match Token.next (Text.skipSpaces t) with
  | (.empty, rest) => some (.error .missingExpression, rest)
  | (.malformed kind _, rest) => some (.error kind, rest)
  | (.word w, rest) => some (.ok (.name w), rest)
  | (token, rest) => token.convert.map fun n => (.ok (.value n.toNat), rest)

@[simp] theorem RegisterTerm.attempt_eq (t : Text) : attempt t = some (read t) := by
  have hconvert := Token.convert_next (Text.skipSpaces t)
  unfold attempt read
  generalize Token.next (Text.skipSpaces t) = scanned at hconvert ⊢
  obtain ⟨token, rest⟩ := scanned
  cases token with
  | empty | malformed | word => rfl
  | _ =>
    show Option.map _ (Token.convert _) = _
    rw [hconvert]
    rfl

/-- Reads the constant behind a sign, by the conversion of its token. -/
def Expr.attemptConstant (t : Text) : Option (Except Kind Nat × Text) :=
  match Token.next t with
  | (.malformed kind _, rest) =>
    some (.error (if kind = .malformed then .missingConstant else kind), rest)
  | (token, rest) =>
    if token.isConstant then token.convert.map fun n => (.ok n.toNat, rest)
    else some (.error .missingConstant, rest)

@[simp] theorem Expr.attemptConstant_eq (t : Text) : attemptConstant t = some (readConstant t) := by
  have hconvert := Token.convert_next t
  unfold attemptConstant readConstant
  generalize Token.next t = scanned at hconvert ⊢
  obtain ⟨token, rest⟩ := scanned
  cases token with
  | binary digits | decimal digits | hex digits =>
    show Option.map _ (Token.convert _) = _
    rw [hconvert]
    rfl
  | _ => rfl

/-! ### Names -/

/-- The value of a name, by a conversion that refuses what is not a number. -/
def Context.attemptName (c : Context) (name : Text) : Option (Except Diagnostic Value) :=
  match c.symbols.lookup name with
  | some _ => some (c.nameValue name)
  | none =>
    if Token.isHexWord name then (Numeral.integer? 16 name).map fun n => .ok (.ofNat n.toNat)
    else some (c.undefined name)

/-- A name is converted only where it is no symbol and looks like a number. -/
theorem Context.attemptName_eq (c : Context) {name : Text} (hname : name.IsName) :
    c.attemptName name = some (c.nameValue name) := by
  unfold attemptName
  cases hlookup : c.symbols.lookup name with
  | some symbol => rfl
  | none =>
    unfold nameValue
    rw [hlookup]
    dsimp only
    split_ifs with hhex
    · rw [Token.integer?_hexWord hname hhex]
      rfl
    · rfl

/-- The value of a term, by a conversion that refuses what is not a number. -/
def Term.attemptEval (c : Context) : Term → Option (Except Diagnostic Value)
  | .name n => c.attemptName n
  | term => some (term.eval c)

theorem Term.attemptEval_eq (c : Context) {term : Term} (h : term.Tidy) :
    term.attemptEval c = some (term.eval c) := by
  cases term with
  | name n => exact c.attemptName_eq h
  | _ => rfl

/-- The number of a register or device operand, by conversions that refuse what is not a number. -/
def RegisterTerm.attemptEval (c : Context) (r : RegisterClass) :
    RegisterTerm → Option (Except Diagnostic Value)
  | .value n => some (r.check n)
  | .name w =>
    match c.symbols.lookup w with
    | some _ => some ((RegisterTerm.name w).eval c r)
    | none =>
      if Token.isRegisterWord w then
        (Numeral.integer? 16 (w.drop 1)).map fun n => .ok { value := n }
      else if Token.isHexWord w then (Numeral.integer? 16 w).map fun n => r.check n.toNat
      else some (c.undefined w)

/-- The name of a register is converted behind its letter, any other name as a whole. -/
theorem RegisterTerm.attemptEval_eq (c : Context) (r : RegisterClass) {term : RegisterTerm}
    (h : term.Tidy) : term.attemptEval c r = some (term.eval c r) := by
  cases term with
  | value n => rfl
  | name w =>
    unfold attemptEval
    dsimp only
    cases hlookup : c.symbols.lookup w with
    | some symbol => rfl
    | none =>
      rw [eval_of_lookup_none c w r hlookup]
      unfold literal Token.isNumeral
      dsimp only
      cases hregister : Token.isRegisterWord w with
      | true =>
        -- what follows the letter of a register name is a hex word of its own
        obtain ⟨digit, rfl, hhex⟩ := Token.exists_of_isRegisterWord hregister
        have hdigit : Text.IsName [digit] := fun d hd => h d (List.mem_cons_of_mem _ hd)
        rw [if_pos rfl, List.drop_one, List.tail_cons, Token.integer?_hexWord hdigit hhex,
          Bool.or_true]
        rfl
      | false =>
        rw [if_neg Bool.false_ne_true, if_neg Bool.false_ne_true, Bool.or_false]
        split_ifs with hhex
        · rw [Token.integer?_hexWord h hhex]
          rfl
        · rfl

/-! ### Texts -/

/-- No conversion fails where the text is read, nor where what was read from it is evaluated. -/
structure Text.Convertible (t : Text) : Prop where
  /-- The text as the digits of a decimal constant. -/
  decimal : Token.attemptDecimal t = some (Token.ofDecimal t)
  /-- A term at the start of the text. -/
  term : Term.attempt t = some (Term.read t)
  /-- A register or device operand. -/
  register : RegisterTerm.attempt t = some (RegisterTerm.read t)
  /-- A constant behind a sign. -/
  constant : Expr.attemptConstant t = some (Expr.readConstant t)
  /-- The value of the term, whatever the symbols are. -/
  evalTerm : ∀ term, (Term.read t).1 = .ok term → ∀ c, term.attemptEval c = some (term.eval c)
  /-- The number of the register or device. -/
  evalRegister : ∀ term, (RegisterTerm.read t).1 = .ok term →
    ∀ c r, term.attemptEval c r = some (term.eval c r)

/-- **No conversion fails**, whatever the text. -/
theorem Text.convertible (t : Text) : t.Convertible where
  decimal := Token.attemptDecimal_eq t
  term := Term.attempt_eq t
  register := RegisterTerm.attempt_eq t
  constant := Expr.attemptConstant_eq t
  evalTerm term hterm c := by
    have htidy := Term.tidy_read t
    rw [hterm] at htidy
    exact Term.attemptEval_eq c htidy
  evalRegister term hterm c r := by
    have htidy := RegisterTerm.tidy_read t
    rw [hterm] at htidy
    exact RegisterTerm.attemptEval_eq c r htidy

end Cosmac
