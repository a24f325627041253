import Cosmac.Assembler
import Cosmac.Disassembly
import Cosmac.Proofs.Lexical
import Mathlib.Data.List.TakeWhile

/-!
# Reading printed source text

Printed source text uses few characters: digits, upper-case letters, spaces and the marks `#`, `:`
and `?`.  Such text is read back as it was meant:

* `number_hex`: the digits of a hexadecimal number have its value;
* `Shape.read_unlabelled`, `Shape.read_labelled`: a statement has the label and the operation that
  it was printed with;
* `Statement.ofSource_rows`, `Text.splitLines_unlines`: every row is one line with one statement.
-/

namespace Cosmac

/-! ### Characters -/

namespace Text

/-- The character can stand in printed source text. -/
def isRowChar (c : Char) : Bool :=
  Token.isNameChar c || c == ' ' || c == '#' || c == ':' || c == '?'

/-- The text is a row of printed source text. -/
def IsRow (t : Text) : Prop := ∀ c ∈ t, isRowChar c = true

-- named, since there is also an instance that goes through all characters
instance (t : Text) : Decidable t.IsRow := List.decidableBAll (isRowChar · = true) t

theorem isRow_of_isName {t : Text} (h : t.IsName) : t.IsRow := by
  intro c hc
  simp [isRowChar, h c hc]

/-- The codes of the characters of a row. -/
theorem toNat_of_isRowChar {c : Char} (h : isRowChar c = true) :
    c.toNat = 32 ∨ c.toNat = 35 ∨ 48 ≤ c.toNat ∧ c.toNat ≤ 58 ∨ c.toNat = 63 ∨
      65 ≤ c.toNat ∧ c.toNat ≤ 90 := by
  simp only [isRowChar, Bool.or_eq_true, beq_iff_eq] at h
  rcases h with (((h | rfl) | rfl) | rfl) | rfl
  · have := toNat_of_isNameChar h
    omega
  all_goals decide

theorem isAlpha_of_isUpper {c : Char} (h : c.isUpper = true) : c.isAlpha = true := by
  show (c.isUpper || c.isLower) = true
  rw [h, Bool.true_or]

/-- What can stand in a name can stand in a word. -/
theorem isWordChar_of_isNameChar {c : Char} (h : Token.isNameChar c = true) :
    Token.isWordChar c = true := by
  have halphanum : c.isAlphanum = true := by
    show (c.isAlpha || c.isDigit) = true
    rcases Bool.or_eq_true_iff.mp h with h | h
    · rw [h, Bool.or_true]
    · rw [isAlpha_of_isUpper h, Bool.true_or]
  simp [Token.isWordChar, Text.isAlphanumeric, halphanum]

theorem isBlank_of_isNameChar {c : Char} (h : Token.isNameChar c = true) : isBlank c = false := by
  have := toNat_of_isNameChar h
  simp only [isBlank, inRanges, blankRanges, List.any_cons, List.any_nil, Bool.or_eq_false_iff,
    Bool.and_eq_false_iff, decide_eq_false_iff_not, and_true]
  omega

/-- A name that starts with a letter. -/
def IsIdentifier : Text → Prop
  | [] => False
  | c :: rest => c.isUpper = true ∧ Text.IsName rest

instance (t : Text) : Decidable t.IsName := List.decidableBAll (Token.isNameChar · = true) t

instance : (t : Text) → Decidable t.IsIdentifier
  | [] => inferInstanceAs (Decidable False)
  | _ :: _ => inferInstanceAs (Decidable (_ ∧ _))

/-- An identifier is a name. -/
theorem IsIdentifier.isName {t : Text} (h : t.IsIdentifier) : t.IsName := by
  cases t with
  | nil => exact h.elim
  | cons c rest =>
    intro d hd
    rcases List.mem_cons.mp hd with rfl | hd
    · simp [Token.isNameChar, h.1]
    · exact h.2 d hd

/-- No word goes on at the start of the text. -/
def Stops (t : Text) : Prop := ∀ c ∈ t.head?, Token.isWordChar c = false ∧ c ≠ '\''

end Text

/-! ### Digits -/

namespace Numeral

open Token

/-- A digit at the end counts once, and the digits before it `base` times. -/
@[simp] theorem number_append (base : Nat) (digits : Text) (c : Char) :
    number base (digits ++ [c]) = base * number base digits + digitValue c := by
  simp [number]

/-- Leading zeros do not count. -/
@[simp] theorem number_zeros (base k : Nat) (digits : Text) :
    number base (List.replicate k '0' ++ digits) = number base digits := by
  induction k with
  | zero => rfl
  | succ k ih =>
    rw [List.replicate_succ, List.cons_append, ← ih]
    simp [number, digitValue]

theorem isNameChar_of_isHexDigit {c : Char} (h : isHexDigit c = true) : isNameChar c = true := by
  simp only [isHexDigit, Bool.or_eq_true, Bool.and_eq_true, decide_eq_true_eq] at h
  rcases h with h | ⟨hlow, hhigh⟩
  · simp [isNameChar, h]
  · have hlow' : 65 ≤ c.toNat := UInt32.le_iff_toNat_le.mp hlow
    have hhigh' : c.toNat ≤ 70 := UInt32.le_iff_toNat_le.mp hhigh
    have hupper : c.isUpper = true := (Text.isUpper_iff c).mpr ⟨hlow', by omega⟩
    simp [isNameChar, hupper]

/-- The digit of a number below 16 is a hexadecimal digit with this value. -/
theorem hexDigit_of_lt {n : Nat} (h : n < 16) :
    isHexDigit n.digitChar.toUpper = true ∧ digitValue n.digitChar.toUpper = n := by
  revert h
  revert n
  decide

/-- The last digit of a number is its remainder, and the others are the digits of the quotient. -/
theorem hexDigits_of_le {n : Nat} (h : 16 ≤ n) :
    hexDigits n = hexDigits (n / 16) ++ [(n % 16).digitChar.toUpper] := by
  unfold hexDigits
  rw [Nat.toDigits_of_base_le (by decide) h, List.map_append]
  rfl

theorem hexDigits_of_lt {n : Nat} (h : n < 16) : hexDigits n = [n.digitChar.toUpper] := by
  unfold hexDigits
  rw [Nat.toDigits_of_lt_base h]
  rfl

/-- The digits of a number are hexadecimal digits and have its value. -/
theorem number_hexDigits (n : Nat) :
    (∀ c ∈ hexDigits n, isHexDigit c = true) ∧ number 16 (hexDigits n) = n := by
  induction n using Nat.strongRecOn with
  | ind n ih =>
    -- by the number of digits: a single one, or those of the quotient and one more
    by_cases hlt : n < 16
    · obtain ⟨hdigit, hvalue⟩ := hexDigit_of_lt hlt
      rw [hexDigits_of_lt hlt]
      refine ⟨fun c hc => ?_, ?_⟩
      · rw [List.mem_singleton.mp hc]
        exact hdigit
      · simp [number, hvalue]
    · obtain ⟨hdigits, hvalue⟩ := ih (n / 16) (by omega)
      obtain ⟨hlast, hlastValue⟩ := hexDigit_of_lt (Nat.mod_lt n (by decide : 0 < 16))
      rw [hexDigits_of_le (by omega)]
      refine ⟨fun c hc => ?_, ?_⟩
      · rcases List.mem_append.mp hc with hc | hc
        · exact hdigits c hc
        · rw [List.mem_singleton.mp hc]
          exact hlast
      · rw [number_append, hvalue, hlastValue]
        omega

/-- **The digits of a word, with leading zeros or without, have its value.** -/
theorem number_hex {width n : Nat} (hwidth : width ≤ 4) (h : n < 0x10000) :
    isHexWord (hex width n) = true ∧ (∀ c ∈ hex width n, isHexDigit c = true) ∧
      number 16 (hex width n) = n := by
  have hhex : hex width n
      = List.replicate (width - (hexDigits n).length) '0' ++ hexDigits n := rfl
  obtain ⟨hdigits, hvalue⟩ := number_hexDigits n
  have hlength : (hexDigits n).length ≤ 4 := by
    unfold hexDigits
    rw [List.length_map, Nat.length_toDigits_le_iff (by decide) (by decide)]
    omega
  have hpos : 1 ≤ (hexDigits n).length := by
    unfold hexDigits
    rw [List.length_map]
    exact List.length_pos_iff.mpr Nat.toDigits_ne_nil
  -- the padding is zeros, which are digits too
  have hall : ∀ c ∈ hex width n, isHexDigit c = true := by
    intro c hc
    rw [hhex] at hc
    rcases List.mem_append.mp hc with hc | hc
    · rw [List.eq_of_mem_replicate hc]
      decide
    · exact hdigits c hc
  have hname : Text.IsName (hex width n) := fun c hc => isNameChar_of_isHexDigit (hall c hc)
  refine ⟨?_, hall, ?_⟩
  · simp only [isHexWord, Bool.and_eq_true, decide_eq_true_eq, List.all_eq_true,
      Text.upper_of_isName hname]
    refine ⟨?_, hall⟩
    rw [hhex, List.length_append, List.length_replicate]
    omega
  · rw [hhex, number_zeros, hvalue]

end Numeral

/-! ### Tokens -/

namespace Token

/-- A run of characters that satisfy `p`, up to one that does not. -/
theorem takeWhile_run {p : Char → Bool} {run rest : Text} (hrun : ∀ c ∈ run, p c = true)
    (hrest : ∀ c ∈ rest.head?, p c = false) : (run ++ rest).takeWhile p = run := by
  rw [List.takeWhile_append_of_pos hrun]
  cases rest with
  | nil => simp
  | cons d _ => simp [hrest d rfl]

theorem dropWhile_run {p : Char → Bool} {run rest : Text} (hrun : ∀ c ∈ run, p c = true)
    (hrest : ∀ c ∈ rest.head?, p c = false) : (run ++ rest).dropWhile p = rest := by
  rw [List.dropWhile_append_of_pos hrun]
  cases rest with
  | nil => rfl
  | cons d _ => simp [hrest d rfl]

/-- A word is scanned as a whole where it cannot go on. -/
theorem next_run {c : Char} {more rest : Text} (hword : ∀ d ∈ c :: more, isWordChar d = true)
    (hmark : c ≠ '#') (hrest : ∀ d ∈ rest.head?, isWordChar d = false) :
    next (c :: more ++ rest) = nextWord (c :: more) rest := by
  have hquote : c ≠ '\'' := by
    rintro rfl
    exact absurd (hword '\'' (List.mem_cons_self ..)) (by decide +kernel)
  unfold next
  -- a word starts neither with a quote nor with a number sign, so the last branch is taken
  split
  · rename_i h
    cases h
  · rename_i h
    exact absurd (List.cons.inj h).1 hquote
  · rename_i h
    exact absurd (List.cons.inj h).1 hmark
  · rw [takeWhile_run hword hrest, dropWhile_run hword hrest]

/-- Without a quote behind it, a word is a name. -/
theorem nextNamed_stops {word rest : Text} (h : ∀ c ∈ rest.head?, c ≠ '\'') :
    nextNamed word rest = (ofWord word, rest) := by
  unfold nextNamed
  split
  · exact absurd rfl (h _ rfl)
  · rfl

/-- **A name is read back** where it cannot go on. -/
theorem next_name {name rest : Text} (hname : name.IsIdentifier) (hrest : rest.Stops) :
    next (name ++ rest) = (.word name, rest) := by
  cases name with
  | nil => exact hname.elim
  | cons c more =>
    have hall : ∀ d ∈ c :: more, isWordChar d = true :=
      fun d hd => Text.isWordChar_of_isNameChar (hname.isName d hd)
    have hmark : c ≠ '#' := by
      rintro rfl
      exact absurd hname.1 (by decide)
    have hword : ofWord (c :: more) = .word (c :: more) :=
      if_pos (List.all_eq_true.mpr hname.isName)
    rw [next_run hall hmark fun d hd => (hrest d hd).1]
    unfold nextWord
    dsimp only
    rw [if_pos (Text.isAlpha_of_isUpper hname.1), Text.upper_of_isName hname.isName,
      nextNamed_stops fun d hd => (hrest d hd).2, hword]

/-- **Hexadecimal digits behind `#` are read back.** -/
theorem next_hex {digits : Text} (hword : isHexWord digits = true)
    (hdigits : ∀ c ∈ digits, isHexDigit c = true) : next ('#' :: digits) = (.hex digits, []) := by
  have hname : Text.IsName digits :=
    fun c hc => Numeral.isNameChar_of_isHexDigit (hdigits c hc)
  have hall : ∀ c ∈ digits, isWordChar c = true :=
    fun c hc => Text.isWordChar_of_isNameChar (hname c hc)
  have htake : digits.takeWhile isWordChar = digits := List.takeWhile_eq_self_iff.mpr hall
  have hdrop : digits.dropWhile isWordChar = [] := List.dropWhile_eq_nil_iff.mpr hall
  show (ofHex (Text.upper (digits.takeWhile isWordChar)), digits.dropWhile isWordChar) = _
  rw [htake, hdrop, Text.upper_of_isName hname]
  exact congrArg (fun token => (token, [])) (if_pos hword)

end Token

/-- A printed hexadecimal number, as an expression. -/
def Expr.ofNat (n : Nat) : Expr := ⟨.plain, .constant n, none⟩

/-- **A printed hexadecimal number is read back.** -/
theorem Expr.read_hex {width n : Nat} (hwidth : width ≤ 4) (h : n < 0x10000) :
    Expr.read ('#' :: Numeral.hex width n) = (.ok (.ofNat n), []) := by
  obtain ⟨hword, hdigits, hvalue⟩ := Numeral.number_hex hwidth h
  have hselector : readSelector ('#' :: Numeral.hex width n)
      = (.ok .plain, '#' :: Numeral.hex width n) := by
    -- the number sign is not the letter of a form
    unfold readSelector
    split
    · exact if_neg (by rename_i hcons; rw [← (List.cons.inj hcons).1]; decide)
    · exact if_neg (by rename_i hcons; rw [← (List.cons.inj hcons).1]; decide)
    · rfl
  have hterm : Term.read ('#' :: Numeral.hex width n) = (.ok (.constant n), []) := by
    unfold Term.read
    rw [Token.next_hex hword hdigits]
    dsimp only
    rw [hvalue]
    rfl
  have hskip : Text.skipSpaces ('#' :: Numeral.hex width n) = '#' :: Numeral.hex width n := rfl
  have hhead : readHead ('#' :: Numeral.hex width n) = (.ok (.plain, .constant n), []) := by
    unfold readHead
    rw [hskip, hselector]
    dsimp only
    rw [hskip, hterm]
  unfold Expr.read
  rw [hhead]
  rfl

/-! ### Statements -/

/-- A statement as it is printed: a name, and operands behind a space. -/
def Statement.printed (name operands : Text) : Text :=
  if operands.isEmpty then name else name ++ [' '] ++ operands

namespace Shape

/-- The text can stand behind the space in a printed statement. -/
def BeginsOperands (t : Text) : Prop := ∀ c ∈ t.head?, Text.isSpace c = false ∧ c ≠ '='

instance (t : Text) : Decidable (BeginsOperands t) := t.head?.decidableForallMem

theorem skipSpaces_of_begins {t : Text} (h : BeginsOperands t) : Text.skipSpaces t = t := by
  cases t with
  | nil => rfl
  | cons c rest => simp [Text.skipSpaces, (h c rfl).1]

/-- Any number of spaces is skipped. -/
theorem skipSpaces_replicate (n : Nat) {t : Text} (h : ∀ c ∈ t.head?, Text.isSpace c = false) :
    Text.skipSpaces (List.replicate n ' ' ++ t) = t := by
  have hspaces : ∀ c ∈ List.replicate n ' ', Text.isSpace c = true := by
    intro c hc
    rw [List.eq_of_mem_replicate hc]
    rfl
  unfold Text.skipSpaces
  rw [List.dropWhile_append_of_pos hspaces]
  cases t with
  | nil => rfl
  | cons c rest => simp [h c rfl]

/-- An identifier is read as a name where it cannot go on. -/
theorem readName_name {name rest : Text} (hname : name.IsIdentifier) (hrest : rest.Stops) :
    readName (name ++ rest) = (.ok name, rest) := by
  have hnext := Token.next_name hname hrest
  cases name with
  | nil => exact hname.elim
  | cons c more =>
    have hrange := Text.toNat_of_isNameChar (hname.isName c (List.mem_cons_self ..))
    have hperiod : c ≠ '.' := by
      rintro rfl
      exact absurd hrange (by decide)
    have halpha : c.isAlpha = true := Text.isAlpha_of_isUpper hname.1
    rw [List.cons_append] at hnext ⊢
    unfold readName
    dsimp only
    rw [if_neg hperiod, halpha, hnext]
    rfl

/-- The name of a printed statement is read, and its operands are left. -/
theorem readName_printed {name operands : Text} (hname : name.IsIdentifier)
    (hoperands : BeginsOperands operands) :
    ∃ rest, readName (Statement.printed name operands) = (.ok name, rest) ∧
      rest.head? ≠ some ':' ∧ Text.skipSpaces rest = operands := by
  unfold Statement.printed
  split_ifs with hempty
  · -- without operands there is no space either
    obtain rfl := List.isEmpty_iff.mp hempty
    refine ⟨[], ?_, nofun, rfl⟩
    have hread : readName (name ++ []) = (.ok name, []) := readName_name hname nofun
    rwa [List.append_nil] at hread
  · refine ⟨' ' :: operands, ?_, fun h => absurd (Option.some.inj h) (by decide),
      skipSpaces_of_begins hoperands⟩
    have hstops : Text.Stops (' ' :: operands) := by
      intro c hc
      obtain rfl := Option.some.inj hc
      decide +kernel
    rw [List.append_assoc]
    exact readName_name hname hstops

theorem isLeading_of_isNameChar {c : Char} (h : Token.isNameChar c = true) :
    isLeading c = false := by
  have hrange := Text.toNat_of_isNameChar h
  simp only [isLeading, Text.isSpace, Bool.or_eq_false_iff, beq_eq_false_iff_ne]
  refine ⟨⟨?_, ?_⟩, ?_⟩ <;> rintro rfl <;> exact absurd hrange (by decide)

/-- A printed statement starts with a letter, no matter what its operands are. -/
theorem head_printed {name : Text} (hname : name.IsIdentifier) (operands : Text) :
    ∃ c rest, Statement.printed name operands = c :: rest ∧ Token.isNameChar c = true := by
  cases name with
  | nil => exact hname.elim
  | cons c more =>
    have hletter := hname.isName c (List.mem_cons_self ..)
    unfold Statement.printed
    split_ifs
    · exact ⟨c, more, rfl, hletter⟩
    · exact ⟨c, more ++ [' '] ++ operands, rfl, hletter⟩

section Printed

variable {name operands : Text} (hname : name.IsIdentifier) (hoperands : BeginsOperands operands)

include hname hoperands

/-- **A printed statement is read back**, behind any number of spaces. -/
theorem read_unlabelled (n : Nat) :
    Shape.read (List.replicate n ' ' ++ Statement.printed name operands)
      = ⟨none, Operation.read name operands⟩ := by
  obtain ⟨c, more, hprinted, hletter⟩ := head_printed hname operands
  obtain ⟨rest, hread, hcolon, hskip⟩ := readName_printed hname hoperands
  have hspaces : ∀ d ∈ List.replicate n ' ', isLeading d = true := by
    intro d hd
    rw [List.eq_of_mem_replicate hd]
    rfl
  have hleading : (List.replicate n ' ' ++ Statement.printed name operands).dropWhile isLeading
      = Statement.printed name operands := by
    rw [List.dropWhile_append_of_pos hspaces, hprinted]
    simp [isLeading_of_isNameChar hletter]
  have hnamed : readNamed (Statement.printed name operands)
      = ⟨none, Operation.read name operands⟩ := by
    unfold readNamed
    rw [hread]
    -- there is neither a colon behind the name nor an equals sign behind the blanks
    split
    · rename_i h
      cases h
    · rename_i h
      obtain ⟨_, hrest⟩ := Prod.mk.inj h
      rw [hrest] at hcolon
      exact absurd rfl hcolon
    · rename_i h
      obtain ⟨hok, hrest⟩ := Prod.mk.inj h
      obtain rfl := Except.ok.inj hok
      rw [← hrest, hskip]
      split
      · exact absurd rfl (hoperands '=' rfl).2
      · rfl
  unfold Shape.read
  rw [hleading]
  -- a printed statement is not empty, and no comma of a data list stands at its start
  split
  · rename_i h
    rw [h] at hprinted
    cases hprinted
  · rename_i h
    rw [h] at hprinted
    rw [← (List.cons.inj hprinted).1] at hletter
    exact absurd hletter (by decide)
  · exact hnamed

/-- **A printed statement is read back with its label.** -/
theorem read_labelled {label : Text} (hlabel : label.IsIdentifier) (n : Nat) :
    Shape.read (label ++ ':' :: (List.replicate n ' ' ++ Statement.printed name operands))
      = ⟨some label, Operation.read name operands⟩ := by
  obtain ⟨c, more, hprinted, hletter⟩ := head_printed hname operands
  obtain ⟨rest, hread, _, hskip⟩ := readName_printed hname hoperands
  have hspaces : Text.skipSpaces (List.replicate n ' ' ++ Statement.printed name operands)
      = Statement.printed name operands := by
    refine skipSpaces_replicate n fun d hd => ?_
    rw [hprinted] at hd
    obtain rfl := Option.some.inj hd
    exact (Bool.or_eq_false_iff.mp (isLeading_of_isNameChar hletter)).1
  have hlabelled : readLabelled label (List.replicate n ' ' ++ Statement.printed name operands)
      = ⟨some label, Operation.read name operands⟩ := by
    unfold readLabelled
    rw [hspaces]
    -- behind the colon stands a name, neither the end nor the comma of a data list
    split
    · rename_i h
      rw [h] at hprinted
      cases hprinted
    · rename_i h
      rw [h] at hprinted
      rw [← (List.cons.inj hprinted).1] at hletter
      exact absurd hletter (by decide)
    · rw [hread]
      dsimp only
      rw [hskip]
      split
      · exact absurd rfl (hoperands '=' rfl).2
      · rfl
  have hstops : Text.Stops (':' :: (List.replicate n ' ' ++ Statement.printed name operands)) := by
    intro d hd
    obtain rfl := Option.some.inj hd
    decide +kernel
  have hfirst := readName_name hlabel hstops
  cases label with
  | nil => exact hlabel.elim
  | cons d letters =>
    have hstart := hlabel.isName d (List.mem_cons_self ..)
    rw [List.cons_append] at hfirst ⊢
    unfold Shape.read
    rw [List.dropWhile_cons_of_neg (by rw [isLeading_of_isNameChar hstart]; decide)]
    -- the label starts the line with a letter
    split
    · rename_i h
      cases h
    · rename_i h
      rw [(List.cons.inj h).1] at hstart
      exact absurd hstart (by decide)
    · unfold readNamed
      rw [hfirst]
      exact hlabelled

end Printed

end Shape

/-! ### Lines -/

namespace Text

/-- Nothing in a row ends a line. -/
theorem isLineBreak_of_isRowChar {c : Char} (h : isRowChar c = true) : isLineBreak c = false := by
  have := toNat_of_isRowChar h
  simp only [isLineBreak, inRanges, List.any_cons, List.any_nil, Bool.or_eq_false_iff,
    Bool.and_eq_false_iff, decide_eq_false_iff_not, and_true]
  omega

/-- A row has no terminator to be dropped. -/
theorem dropTerminator_row {t : Text} (h : t.IsRow) : dropTerminator t = t := by
  unfold dropTerminator dropTail
  rw [List.dropWhile_eq_self_iff.mpr, List.reverse_reverse]
  intro hlength hend
  have hrow := h _ (List.mem_reverse.mp (List.getElem_mem hlength))
  have hcode := toNat_of_isRowChar hrow
  simp only [Bool.or_eq_true, beq_iff_eq] at hend
  rcases hend with hend | hend <;> rw [hend] at hcode <;> exact absurd hcode (by decide)

/-- Nothing in the text ends a line. -/
def IsLine (t : Text) : Prop := ∀ c ∈ t, isLineBreak c = false

theorem isLine_of_isRow {t : Text} (h : t.IsRow) : t.IsLine :=
  fun c hc => isLineBreak_of_isRowChar (h c hc)

/-- A text without line breaks, up to a line feed, is one line. -/
theorem splitLines_append {t : Text} (h : t.IsLine) (rest : Text) :
    splitLines (t ++ '\n' :: rest) = t :: splitLines rest := by
  induction t with
  | nil =>
    rw [List.nil_append, splitLines]
    · rfl
    · exact nofun
  | cons c more ih =>
    have hbreak := h c (List.mem_cons_self ..)
    rw [List.cons_append, splitLines, hbreak, ih fun d hd => h d (List.mem_cons_of_mem _ hd)]
    · rfl
    · -- a carriage return ends a line
      rintro _ rfl _
      exact absurd hbreak (by decide)

/-- **Lines are read back from their text.** -/
theorem splitLines_unlines_of_isLine {lines : List Text} (h : ∀ line ∈ lines, line.IsLine) :
    splitLines (unlines lines) = lines := by
  induction lines with
  | nil => rfl
  | cons line more ih =>
    have hunlines : unlines (line :: more) = line ++ '\n' :: unlines more := by
      simp [unlines]
    rw [hunlines, splitLines_append (h line (List.mem_cons_self ..)),
      ih fun l hl => h l (List.mem_cons_of_mem _ hl)]

theorem splitLines_unlines {rows : List Text} (h : ∀ row ∈ rows, row.IsRow) :
    splitLines (unlines rows) = rows :=
  splitLines_unlines_of_isLine fun row hrow => isLine_of_isRow (h row hrow)

end Text

namespace Statement

/-- A row is a single statement: it has no quote, no comment and no semicolon. -/
theorem pieces_row {t : Text} (h : t.IsRow) : pieces false t = [t] := by
  induction t with
  | nil => rfl
  | cons c rest ih =>
    have hcode := Text.toNat_of_isRowChar (h c (List.mem_cons_self ..))
    have hquote : c ≠ '\'' := by
      rintro rfl
      exact absurd hcode (by decide)
    have hperiod : c ≠ '.' := by
      rintro rfl
      exact absurd hcode (by decide)
    have hsemicolon : c ≠ ';' := by
      rintro rfl
      exact absurd hcode (by decide)
    rw [pieces, if_neg hquote, if_neg Bool.false_ne_true, if_neg fun h => hperiod h.1,
      if_neg hsemicolon, ih fun d hd => h d (List.mem_cons_of_mem _ hd)]
    rfl

/-- A row that holds more than spaces is one statement. -/
theorem numberedTexts_row {t : Text} (h : t.IsRow) (hletter : ∃ c ∈ t, Token.isNameChar c = true)
    (number : Int) : numberedTexts (Text.dropTerminator t) number = [(t, number)] := by
  have hblank : Text.allBlank t = false := by
    obtain ⟨c, hc, hname⟩ := hletter
    rw [Text.allBlank, List.all_eq_false]
    exact ⟨c, hc, by rw [Text.isBlank_of_isNameChar hname]; decide⟩
  unfold numberedTexts splitLine
  rw [Text.dropTerminator_row h, pieces_row h]
  simp [hblank]

/-- Rows are numbered by their places. -/
theorem texts_rows {rows : List Text}
    (h : ∀ row ∈ rows, row.IsRow ∧ ∃ c ∈ row, Token.isNameChar c = true) (k : Nat) :
    ((rows.zipIdx k).flatMap fun (line, number) =>
        numberedTexts (Text.dropTerminator line) number)
      = rows.mapIdx fun i row => (row, ((i + k : Nat) : Int)) := by
  induction rows generalizing k with
  | nil => rfl
  | cons row more ih =>
    obtain ⟨hrow, hletter⟩ := h row (List.mem_cons_self ..)
    rw [List.zipIdx_cons, List.flatMap_cons, List.mapIdx_cons,
      ih fun r hr => h r (List.mem_cons_of_mem _ hr)]
    dsimp only
    rw [numberedTexts_row hrow hletter]
    simp only [List.singleton_append, Nat.zero_add, Nat.add_assoc, Nat.add_comm 1 k]

/-- **Every row is a statement**, with its place as position and line. -/
theorem ofSource_rows {rows : List Text}
    (h : ∀ row ∈ rows, row.IsRow ∧ ∃ c ∈ row, Token.isNameChar c = true) :
    ofSource rows = rows.mapIdx fun i row => { text := row, line := i + 1, index := i } := by
  unfold ofSource
  dsimp only
  rw [texts_rows h]
  apply List.ext_getElem?
  intro i
  simp [Function.comp_def]

end Statement

end Cosmac
