import Cosmac.Proofs.Grammar
import Cosmac.Proofs.Repetition

/-!
# Statements in capitals

The shape of a statement does not depend on the case of its letters (`Shape.read_capitals`).

A character and its capital pass the same tests (`Text.apply_toUpper`), and no letter has a mark as
its capital, so that a mark stands at the start of a text in both cases or in none
(`Text.starts_or`).  Names, digits and strings are put in upper case when they are read; what is not
is the text of a malformed token, and no reader looks at that (`Token.Matches`).  So every reader
gives the same from the text in capitals and leaves what it left before, in capitals
(`Text.leaving`), one lemma for each reader in the order in which they are defined.
-/

namespace Cosmac

/-! ### Characters -/

namespace Text

/-- The text with the letters `a` to `z` in upper case. -/
def capitals (t : Text) : Text := t.map Char.toUpper

/-- The letters that have a capital. -/
def smallLetters : List Char := "abcdefghijklmnopqrstuvwxyz".toList

/-- Only the small letters have another capital. -/
theorem toUpper_eq_or_mem (c : Char) : c.toUpper = c ∨ c ∈ smallLetters := by
  by_cases hascii : c.toNat < 128
  · refine of_forall_lt hascii ?_
    decide +kernel
  · -- beyond ASCII nothing is changed
    left
    unfold Char.toUpper
    rw [dif_neg]
    rintro ⟨_, hz⟩
    have hle : c.toNat ≤ 122 := UInt32.le_iff_toNat_le.mp hz
    omega

/-- What is the same for each letter and its capital does not see the case of any character. -/
theorem apply_toUpper {α : Type} [DecidableEq α] {f : Char → α}
    (h : smallLetters.all (fun c => f c.toUpper == f c) = true) (c : Char) :
    f c.toUpper = f c := by
  rcases toUpper_eq_or_mem c with hsame | hsmall
  · rw [hsame]
  · exact beq_iff_eq.mp (List.all_eq_true.mp h c hsmall)

@[simp] theorem isWordChar_toUpper (c : Char) : Token.isWordChar c.toUpper = Token.isWordChar c :=
  apply_toUpper (by decide +kernel) c

@[simp] theorem isSpace_toUpper (c : Char) : isSpace c.toUpper = isSpace c :=
  apply_toUpper (by decide +kernel) c

@[simp] theorem isBlank_toUpper (c : Char) : isBlank c.toUpper = isBlank c :=
  apply_toUpper (by decide +kernel) c

@[simp] theorem upperChar_toUpper (c : Char) : upperChar c.toUpper = upperChar c :=
  apply_toUpper (by decide +kernel) c

/-- No letter has a mark as its capital. -/
theorem toUpper_eq_iff {c d : Char} (hd : d.isAlpha = false) : c.toUpper = d ↔ c = d := by
  have hfixed : ∀ c : Char, c.isAlpha = false → c.toUpper = c := by
    intro c hc
    refine (toUpper_eq_or_mem c).resolve_right fun hsmall => ?_
    have hletters : smallLetters.all Char.isAlpha = true := by decide +kernel
    have hletter := List.all_eq_true.mp hletters c hsmall
    rw [hc] at hletter
    cases hletter
  constructor
  · rintro rfl
    rw [Char.isAlpha_toUpper_eq_isAlpha] at hd
    exact (hfixed c hd).symm
  · rintro rfl
    exact hfixed c hd

/-! ### Texts -/

/-- What a reader gives, with the text that it leaves in capitals. -/
def leaving {α : Type} (found : α × Text) : α × Text := (found.1, capitals found.2)

/-- Capitals first or not, the upper case is the same. -/
@[simp] theorem upper_capitals (t : Text) : upper (capitals t) = upper t := by
  unfold upper capitals
  rw [List.flatMap_map]
  exact List.flatMap_congr fun c _ => upperChar_toUpper c

/-- A test that does not see the case cuts the text at the same place. -/
theorem takeWhile_capitals {p : Char → Bool} (h : ∀ c : Char, p c.toUpper = p c) (t : Text) :
    (capitals t).takeWhile p = capitals (t.takeWhile p) := by
  unfold capitals
  rw [List.takeWhile_map, (funext h : p ∘ Char.toUpper = p)]

theorem dropWhile_capitals {p : Char → Bool} (h : ∀ c : Char, p c.toUpper = p c) (t : Text) :
    (capitals t).dropWhile p = capitals (t.dropWhile p) := by
  unfold capitals
  rw [List.dropWhile_map, (funext h : p ∘ Char.toUpper = p)]

@[simp]
theorem skipSpaces_capitals (t : Text) : skipSpaces (capitals t) = capitals (skipSpaces t) :=
  dropWhile_capitals isSpace_toUpper t

/-- A mark stands at the start of a text or not, whatever the case of the letters. -/
theorem starts_or {d : Char} (hd : d.isAlpha = false) (t : Text) :
    (∃ rest, t = d :: rest ∧ capitals t = d :: capitals rest) ∨
      (∀ c ∈ t.head?, c ≠ d) ∧ ∀ c ∈ (capitals t).head?, c ≠ d := by
  cases t with
  | nil => exact Or.inr ⟨by rintro _ ⟨⟩, by rintro _ ⟨⟩⟩
  | cons c rest =>
    by_cases hc : c = d
    · refine Or.inl ⟨rest, by rw [hc], ?_⟩
      show c.toUpper :: capitals rest = _
      rw [(toUpper_eq_iff hd).mpr hc]
    · refine Or.inr ⟨fun e he => ?_, fun e he => ?_⟩
      · rw [← Option.some.inj he]
        exact hc
      · rw [← Option.some.inj he]
        exact fun h => hc ((toUpper_eq_iff hd).mp h)

/-- The mark at the start of a text is there in capitals too. -/
theorem head?_capitals {d : Char} (hd : d.isAlpha = false) {t : Text} :
    (capitals t).head? = some d ↔ t.head? = some d := by
  rcases starts_or hd t with ⟨rest, rfl, hcapitals⟩ | ⟨hne, hne'⟩
  · rw [hcapitals]
    exact iff_of_true rfl rfl
  · exact iff_of_false (fun h => hne' d h rfl) fun h => hne d h rfl

end Text

/-! ### Tokens -/

namespace Token

open Text (capitals)

/-- The quotes of a quoted part do not depend on the case of the letters in it. -/
@[simp] theorem quotedSpan_capitals (t : Text) : quotedSpan (capitals t)
    = ⟨capitals (quotedSpan t).body, (quotedSpan t).closed, capitals (quotedSpan t).rest⟩ := by
  fun_induction quotedSpan t with
  | case1 => rfl
  | case2 rest ih =>
    -- a doubled quote
    show (quotedSpan (capitals rest)).cons '\'' = _
    rw [ih]
    rfl
  | case3 rest hsingle =>
    -- a single quote, which stays single, since no capital is a quote
    rcases Text.starts_or (by decide : '\''.isAlpha = false) rest with ⟨more, rfl, -⟩ | ⟨-, hquote⟩
    · exact absurd rfl (hsingle more)
    · show quotedSpan ('\'' :: capitals rest) = _
      rw [quotedSpan]
      · rfl
      · intro more hmore
        rw [hmore] at hquote
        exact hquote '\'' rfl rfl
  | case4 c rest hdouble hsingle ih =>
    -- any other character, whose capital is no quote
    have hquote : c.toUpper ≠ '\'' := fun h =>
      hsingle ((Text.toUpper_eq_iff (by decide)).mp h)
    show quotedSpan (c.toUpper :: capitals rest) = _
    rw [quotedSpan, ih]
    · rfl
    · exact fun _ h _ => hquote h
    · exact hquote

/-- Tokens that say the same of two texts that differ in the case of letters.  What the second text
leaves is what the first leaves, in capitals; a malformed part may show its letters as they were. -/
inductive Matches : Token × Text → Token × Text → Prop
  /-- The token is the same. -/
  | same (token : Token) (rest : Text) : Matches (token, rest) (token, capitals rest)
  /-- Both tokens are malformed in the same way. -/
  | malformed (kind : Kind) (t u rest : Text) :
      Matches (.malformed kind t, rest) (.malformed kind u, capitals rest)

/-- A quoted part that is not closed shows its letters in its fault, and only there. -/
theorem matches_quoted (closed : Bool) (token : Token) (t u rest : Text) :
    Matches (if closed then token else .malformed .missingQuote t, rest)
      (if closed then token else .malformed .missingQuote u, capitals rest) := by
  cases closed with
  | true => exact .same token rest
  | false => exact .malformed .missingQuote t u rest

/-- The body of a literal is put in upper case before it is looked at. -/
theorem matches_ofLiteral (mark : Text) (span : QuotedSpan) (rest : Text) :
    Matches (ofLiteral mark span, rest)
      (ofLiteral mark ⟨capitals span.body, span.closed, capitals span.rest⟩, capitals rest) := by
  unfold ofLiteral
  rw [Text.upper_capitals]
  split
  · exact matches_quoted ..
  · exact matches_quoted ..
  · exact matches_quoted ..
  · exact matches_quoted ..
  · exact .same ..

/-- A word is a name or the mark of a literal in both cases. -/
theorem matches_nextNamed (word rest : Text) :
    Matches (nextNamed word rest) (nextNamed word (capitals rest)) := by
  rcases Text.starts_or (by decide : '\''.isAlpha = false) rest with
    ⟨inside, rfl, hcapitals⟩ | ⟨hquote, hquote'⟩
  · -- a quote follows the word
    rw [hcapitals]
    show Matches (ofLiteral word (quotedSpan inside), (quotedSpan inside).rest)
      (ofLiteral word (quotedSpan (capitals inside)), (quotedSpan (capitals inside)).rest)
    rw [quotedSpan_capitals]
    exact matches_ofLiteral ..
  · rw [nextNamed_stops hquote, nextNamed_stops hquote']
    exact .same ..

/-- A letter starts a word in both cases, and so does a digit. -/
theorem matches_nextWord (word rest : Text) :
    Matches (nextWord word rest) (nextWord (capitals word) (capitals rest)) := by
  cases word with
  | nil => exact .same ..
  | cons c more =>
    show Matches (if c.isAlpha then _ else _) (if c.toUpper.isAlpha then
      nextNamed (Text.upper (capitals (c :: more))) (capitals rest)
      else (ofDecimal (Text.upper (capitals (c :: more))), capitals rest))
    rw [Char.isAlpha_toUpper_eq_isAlpha, Text.upper_capitals]
    by_cases hletter : c.isAlpha = true
    · rw [if_pos hletter, if_pos hletter]
      exact matches_nextNamed ..
    · rw [if_neg hletter, if_neg hletter]
      exact .same ..

/-- Away from quotes and number signs, the token is a word. -/
theorem next_eq_nextWord {t : Text} (hquote : ∀ c ∈ t.head?, c ≠ '\'')
    (hhex : ∀ c ∈ t.head?, c ≠ '#') :
    next t = nextWord (t.takeWhile isWordChar) (t.dropWhile isWordChar) := by
  unfold next
  split
  · rfl
  · exact absurd rfl (hquote '\'' rfl)
  · exact absurd rfl (hhex '#' rfl)
  · rfl

/-- **The token at the start of a text does not depend on the case of its letters.** -/
theorem matches_next (t : Text) : Matches (next t) (next (capitals t)) := by
  rcases Text.starts_or (by decide : '\''.isAlpha = false) t with
    ⟨inside, rfl, hcapitals⟩ | ⟨hquote, hquote'⟩
  · -- a quote at the start
    rw [hcapitals]
    show Matches (.malformed (if (quotedSpan inside).closed then _ else _) _, _)
      (.malformed (if (quotedSpan (capitals inside)).closed then _ else _) _,
        (quotedSpan (capitals inside)).rest)
    rw [quotedSpan_capitals]
    exact .malformed ..
  rcases Text.starts_or (by decide : '#'.isAlpha = false) t with
    ⟨digits, rfl, hcapitals⟩ | ⟨hhex, hhex'⟩
  · -- a number sign: the digits behind it are put in upper case
    rw [hcapitals]
    show Matches _ (ofHex (Text.upper ((capitals digits).takeWhile isWordChar)),
      (capitals digits).dropWhile isWordChar)
    rw [Text.takeWhile_capitals Text.isWordChar_toUpper, Text.upper_capitals,
      Text.dropWhile_capitals Text.isWordChar_toUpper]
    exact .same ..
  · -- a word
    rw [next_eq_nextWord hquote hhex, next_eq_nextWord hquote' hhex',
      Text.takeWhile_capitals Text.isWordChar_toUpper,
      Text.dropWhile_capitals Text.isWordChar_toUpper]
    exact matches_nextWord ..

end Token

/-! ### Expressions -/

open Text (capitals leaving)

/-- **A term does not depend on the case of its letters**, and what it leaves is left in capitals.
-/
@[simp] theorem Term.read_capitals (t : Text) :
    Term.read (capitals t) = leaving (Term.read t) := by
  rcases Text.starts_or (by decide : '*'.isAlpha = false) t with
    ⟨rest, rfl, hcapitals⟩ | ⟨hstar, hstar'⟩
  · rw [hcapitals]
    rfl
  · rw [Term.read_eq hstar, Term.read_eq hstar']
    -- no term shows the text of a malformed token
    have hnext := Token.matches_next t
    generalize Token.next t = found at hnext
    generalize Token.next (capitals t) = found' at hnext
    cases hnext <;> rfl

/-- Neither does a register or device. -/
@[simp] theorem RegisterTerm.read_capitals (t : Text) :
    RegisterTerm.read (capitals t) = leaving (RegisterTerm.read t) := by
  unfold RegisterTerm.read
  rw [Text.skipSpaces_capitals]
  have hnext := Token.matches_next (Text.skipSpaces t)
  generalize Token.next (Text.skipSpaces t) = found at hnext
  generalize Token.next (capitals (Text.skipSpaces t)) = found' at hnext
  cases hnext with
  | same token rest => cases token <;> rfl
  | malformed kind t u rest => rfl

namespace Expr

@[simp] theorem readConstant_capitals (t : Text) :
    readConstant (capitals t) = leaving (readConstant t) := by
  unfold readConstant
  have hnext := Token.matches_next t
  generalize Token.next t = found at hnext
  generalize Token.next (capitals t) = found' at hnext
  cases hnext with
  | same token rest => cases token <;> rfl
  | malformed kind t u rest => rfl

/-- Only behind the letter `A` is there a form. -/
theorem readSelector_of_ne {a : Char} (ha : a.toUpper ≠ 'A') (t : Text) :
    readSelector (a :: t) = (.ok .plain, a :: t) := by
  unfold readSelector
  split
  · rename_i heq
    rw [← (List.cons.inj heq).1, if_neg ha]
  · rename_i heq
    rw [← (List.cons.inj heq).1, if_neg ha]
  · rfl

/-- Behind `A.` there is `0` or `1`, or the period is stray. -/
theorem readSelector_stray {a : Char} {t : Text} (ha : a.toUpper = 'A')
    (h : ∀ d ∈ t.head?, d ≠ '0' ∧ d ≠ '1') :
    readSelector (a :: '.' :: t) = (.error .strayPeriod, t) := by
  have hzero : ∀ more, t = '0' :: more → False := by
    rintro more rfl
    exact (h '0' rfl).1 rfl
  have hone : ∀ more, t = '1' :: more → False := by
    rintro more rfl
    exact (h '1' rfl).2 rfl
  rw [readSelector, if_pos ha]
  · exact fun inside => hzero ('(' :: inside)
  · exact fun inside => hone ('(' :: inside)
  · exact hzero
  · exact hone

/-- Behind `A.0` and `A.1` there is a bracket. -/
theorem readSelector_unclosed {a d : Char} {t : Text} (ha : a.toUpper = 'A')
    (hd : d = '0' ∨ d = '1') (h : ∀ c ∈ t.head?, c ≠ '(') :
    readSelector (a :: '.' :: d :: t) = (.error .malformed, t) := by
  have hopen : ∀ inside, t = '(' :: inside → False := by
    rintro inside rfl
    exact h '(' rfl rfl
  rcases hd with rfl | rfl
  · rw [readSelector, if_pos ha]
    exact hopen
  · rw [readSelector, if_pos ha]
    exact hopen

/-- The forms `A.0(` and `A.1(`, and the faults in them, in both cases. -/
theorem readSelector_period_capitals {a a' : Char} (ha : a.toUpper = 'A') (ha' : a'.toUpper = 'A')
    (t : Text) : readSelector (a' :: '.' :: capitals t)
      = leaving (readSelector (a :: '.' :: t)) := by
  cases t with
  | nil =>
    rw [readSelector_stray ha (by rintro _ ⟨⟩), readSelector_stray ha' (by rintro _ ⟨⟩)]
    rfl
  | cons d more =>
    show readSelector (a' :: '.' :: d.toUpper :: capitals more) = _
    by_cases hd : d = '0' ∨ d = '1'
    · -- the digit of a form is its own capital
      have hsame : d.toUpper = d := by rcases hd with rfl | rfl <;> rfl
      rw [hsame]
      rcases Text.starts_or (by decide : '('.isAlpha = false) more with
        ⟨inside, rfl, hcapitals⟩ | ⟨hopen, hopen'⟩
      · rw [hcapitals]
        rcases hd with rfl | rfl
        · rw [readSelector, readSelector, if_pos ha, if_pos ha']
          rfl
        · rw [readSelector, readSelector, if_pos ha, if_pos ha']
          rfl
      · rw [readSelector_unclosed ha hd hopen, readSelector_unclosed ha' hd hopen']
        rfl
    · -- neither the character nor its capital is such a digit
      rw [not_or] at hd
      have hd' : d.toUpper ≠ '0' ∧ d.toUpper ≠ '1' :=
        ⟨mt (Text.toUpper_eq_iff (by decide)).mp hd.1, mt (Text.toUpper_eq_iff (by decide)).mp hd.2⟩
      rw [readSelector_stray ha (by rintro _ ⟨⟩; exact hd),
        readSelector_stray ha' (by rintro _ ⟨⟩; exact hd')]
      rfl

/-- The selector of a form does not depend on the case of its letter. -/
@[simp] theorem readSelector_capitals (t : Text) :
    readSelector (capitals t) = leaving (readSelector t) := by
  cases t with
  | nil => rfl
  | cons a t =>
    have htwice : a.toUpper.toUpper = a.toUpper :=
      Text.apply_toUpper (f := Char.toUpper) (by decide +kernel) a
    show readSelector (a.toUpper :: capitals t) = _
    by_cases ha : a.toUpper = 'A'
    · -- a form may start here; a bracket or a period decides
      have ha' := htwice.trans ha
      rcases Text.starts_or (by decide : '('.isAlpha = false) t with
        ⟨inside, rfl, hcapitals⟩ | ⟨hopen, hopen'⟩
      · rw [hcapitals, readSelector, readSelector, if_pos ha, if_pos ha']
        rfl
      rcases Text.starts_or (by decide : '.'.isAlpha = false) t with
        ⟨rest, rfl, hcapitals⟩ | ⟨hperiod, hperiod'⟩
      · rw [hcapitals]
        exact readSelector_period_capitals ha ha' rest
      · rw [readSelector_plain fun d hd => ⟨hopen d hd, hperiod d hd⟩,
          readSelector_plain fun d hd => ⟨hopen' d hd, hperiod' d hd⟩]
        rfl
    · -- another letter starts no form
      rw [readSelector_of_ne ha, readSelector_of_ne (by rw [htwice]; exact ha)]
      rfl

theorem readOffset_of_ne {t : Text} (hplus : ∀ c ∈ t.head?, c ≠ '+')
    (hminus : ∀ c ∈ t.head?, c ≠ '-') : readOffset t = (.ok none, t) := by
  unfold readOffset
  split
  · exact absurd rfl (hplus '+' rfl)
  · exact absurd rfl (hminus '-' rfl)
  · rfl

/-- An offset starts with a sign, which has no case. -/
@[simp] theorem readOffset_capitals (t : Text) :
    readOffset (capitals t) = leaving (readOffset t) := by
  rcases Text.starts_or (by decide : '+'.isAlpha = false) t with
    ⟨rest, rfl, hcapitals⟩ | ⟨hplus, hplus'⟩
  · rw [hcapitals, readOffset, readOffset, readConstant_capitals]
    rcases readConstant rest with ⟨_ | n, more⟩ <;> rfl
  rcases Text.starts_or (by decide : '-'.isAlpha = false) t with
    ⟨rest, rfl, hcapitals⟩ | ⟨hminus, hminus'⟩
  · rw [hcapitals, readOffset, readOffset, readConstant_capitals]
    rcases readConstant rest with ⟨_ | n, more⟩ <;> rfl
  · rw [readOffset_of_ne hplus hminus, readOffset_of_ne hplus' hminus']
    rfl

@[simp] theorem readHead_capitals (t : Text) :
    readHead (capitals t) = leaving (readHead t) := by
  unfold readHead
  rw [Text.skipSpaces_capitals, readSelector_capitals]
  rcases readSelector (Text.skipSpaces t) with ⟨_ | selector, rest⟩
  · rfl
  · dsimp only [leaving]
    rw [Text.skipSpaces_capitals, Term.read_capitals]
    rcases Term.read (Text.skipSpaces rest) with ⟨_ | term, behind⟩ <;> rfl

/-- Without its closing bracket a form is broken. -/
theorem readTail_unclosed {selector : Selector} {t rest : Text} {offset : Option Int}
    (hform : selector ≠ .plain) (hoffset : readOffset t = (.ok offset, rest))
    (hclose : ∀ c ∈ (Text.skipSpaces rest).head?, c ≠ ')') :
    readTail selector t = (.error .missingParenthesis, Text.skipSpaces rest) := by
  unfold readTail
  rw [hoffset]
  dsimp only
  rw [if_neg hform]
  split
  · rename_i behind hbehind
    rw [hbehind] at hclose
    exact absurd rfl (hclose ')' rfl)
  · rfl

/-- The offset and the closing bracket do not depend on the case. -/
@[simp] theorem readTail_capitals (selector : Selector) (t : Text) :
    readTail selector (capitals t) = leaving (readTail selector t) := by
  have hcapitals := readOffset_capitals t
  rcases hoffset : readOffset t with ⟨_ | offset, rest⟩
  · -- the offset is broken
    unfold readTail
    rw [hcapitals, hoffset]
    rfl
  · rw [hoffset] at hcapitals
    by_cases hplain : selector = .plain
    · -- no form, so no bracket is looked for
      unfold readTail
      rw [hcapitals, hoffset]
      dsimp only [leaving]
      rw [if_pos hplain, if_pos hplain]
    rcases Text.starts_or (by decide : ')'.isAlpha = false) (Text.skipSpaces rest) with
      ⟨behind, hrest, hrest'⟩ | ⟨hclose, hclose'⟩
    · -- the bracket is there
      unfold readTail
      rw [hcapitals, hoffset]
      dsimp only [leaving]
      rw [if_neg hplain, if_neg hplain, Text.skipSpaces_capitals, hrest', hrest]
      rfl
    · -- the bracket is missing
      rw [← Text.skipSpaces_capitals] at hclose'
      rw [readTail_unclosed hplain hoffset hclose, readTail_unclosed hplain hcapitals hclose',
        Text.skipSpaces_capitals]
      rfl

/-- **An expression does not depend on the case of its letters.** -/
@[simp] theorem read_capitals (t : Text) : read (capitals t) = leaving (read t) := by
  unfold read
  rw [readHead_capitals]
  rcases readHead t with ⟨_ | ⟨selector, term⟩, rest⟩
  · rfl
  · dsimp only [leaving]
    rw [readTail_capitals]
    rcases readTail selector rest with ⟨_ | offset, behind⟩ <;> rfl

end Expr

/-! ### Statements -/

@[simp] theorem unexpected_toUpper (c : Char) : unexpected c.toUpper = unexpected c :=
  Text.apply_toUpper (by decide +kernel) c

/-- What stands behind a statement is the same fault in capitals. -/
@[simp] theorem trailing_capitals (t : Text) : trailing (capitals t) = trailing t := by
  unfold trailing
  rw [Text.skipSpaces_capitals]
  cases Text.skipSpaces t with
  | nil => rfl
  | cons c rest => exact congrArg some (unexpected_toUpper c)

namespace Item

theorem startsWithSign_of_ne {t : Text} (hplus : ∀ c ∈ t.head?, c ≠ '+')
    (hminus : ∀ c ∈ t.head?, c ≠ '-') : startsWithSign t = false := by
  unfold startsWithSign
  split
  · exact absurd rfl (hplus '+' rfl)
  · exact absurd rfl (hminus '-' rfl)
  · rfl

/-- A sign has no case. -/
@[simp]
theorem startsWithSign_capitals (t : Text) : startsWithSign (capitals t) = startsWithSign t := by
  rcases Text.starts_or (by decide : '+'.isAlpha = false) t with
    ⟨rest, rfl, hcapitals⟩ | ⟨hplus, hplus'⟩
  · rw [hcapitals]
    rfl
  rcases Text.starts_or (by decide : '-'.isAlpha = false) t with
    ⟨rest, rfl, hcapitals⟩ | ⟨hminus, hminus'⟩
  · rw [hcapitals]
    rfl
  · rw [startsWithSign_of_ne hplus hminus, startsWithSign_of_ne hplus' hminus']

@[simp] theorem readExpression_capitals (t : Text) :
    readExpression (capitals t) = leaving (readExpression t) := by
  unfold readExpression
  rw [Expr.read_capitals]
  rcases Expr.read t with ⟨_ | e, rest⟩ <;> rfl

/-- An item is a string or an expression, whatever the case. -/
@[simp] theorem read_capitals (t : Text) : read (capitals t) = leaving (read t) := by
  unfold read
  rw [readExpression_capitals]
  have hnext := Token.matches_next t
  generalize Token.next t = found at hnext
  generalize Token.next (capitals t) = found' at hnext
  cases hnext with
  | same token rest =>
    cases token with
    | string s =>
      -- behind a string, a sign decides
      dsimp only
      rw [startsWithSign_capitals]
      split <;> rfl
    | _ => rfl
  | malformed kind t u rest => rfl

end Item

namespace DataList

/-- A data list in capitals has the same items and the same fault. -/
@[simp] theorem read_capitals (t : Text) : read (capitals t) = read t := by
  fun_induction read t with
  | case1 t fault rest hitem =>
    -- a broken item
    rw [read, Text.skipSpaces_capitals, Item.read_capitals, hitem]
    rfl
  | case2 t item rest hitem hend =>
    -- the last item
    rw [read, Text.skipSpaces_capitals, Item.read_capitals, hitem]
    dsimp only [leaving]
    rw [Text.skipSpaces_capitals, hend]
    rfl
  | case3 t item rest hitem more hcomma ih =>
    -- an item with a comma behind it, which is its own capital
    rw [read, Text.skipSpaces_capitals, Item.read_capitals, hitem]
    dsimp only [leaving]
    rw [Text.skipSpaces_capitals, hcomma]
    show (if (',').toUpper = ',' then (read (capitals more)).cons item else _) = _
    rw [if_pos (by decide), ih]
  | case4 t item rest hitem c more hmore hcomma =>
    -- an item with something else behind it
    rw [read, Text.skipSpaces_capitals, Item.read_capitals, hitem]
    dsimp only [leaving]
    rw [Text.skipSpaces_capitals, hmore]
    show (if c.toUpper = ',' then _ else DataList.mk [item] (some ⟨none, unexpected c.toUpper⟩)) = _
    rw [if_neg (mt (Text.toUpper_eq_iff (by decide)).mp hcomma), unexpected_toUpper]

/-- Behind an instruction nothing but a comma may stand. -/
theorem readTrailer_of_ne {t : Text} {c : Char} {more : Text} (ht : Text.skipSpaces t = c :: more)
    (hcomma : c ≠ ',') : readTrailer t = ⟨[], some ⟨none, unexpected c⟩⟩ := by
  unfold readTrailer
  rw [ht]
  split
  · rename_i h
    cases h
  · rename_i h
    exact absurd (List.cons.inj h).1 hcomma
  · rename_i h
    rw [(List.cons.inj h).1]

/-- The data behind an instruction does not depend on the case. -/
@[simp] theorem readTrailer_capitals (t : Text) : readTrailer (capitals t) = readTrailer t := by
  have hskip := Text.skipSpaces_capitals t
  cases ht : Text.skipSpaces t with
  | nil =>
    rw [ht] at hskip
    unfold readTrailer
    rw [hskip, ht]
    rfl
  | cons c more =>
    rw [ht] at hskip
    by_cases hcomma : c = ','
    · subst hcomma
      unfold readTrailer
      rw [hskip, ht]
      exact read_capitals more
    · rw [readTrailer_of_ne ht hcomma,
        readTrailer_of_ne hskip (mt (Text.toUpper_eq_iff (by decide)).mp hcomma),
        unexpected_toUpper]

end DataList

/-- The operand of an instruction does not depend on the case. -/
@[simp] theorem Argument.read_capitals (kind : OperandKind) (t : Text) :
    Argument.read kind (capitals t) = leaving (Argument.read kind t) := by
  unfold Argument.read readRegister readExpression
  rw [RegisterTerm.read_capitals, Expr.read_capitals]
  cases kind with
  | none => rfl
  | register | nonzeroRegister | device => rcases RegisterTerm.read t with ⟨_ | term, rest⟩ <;> rfl
  | immediate | shortAddress | longAddress => rcases Expr.read t with ⟨_ | e, rest⟩ <;> rfl

namespace Operation

@[simp] theorem readLast_capitals (make : Operand Expr → Option Kind → Operation) (t : Text) :
    readLast make (capitals t) = readLast make t := by
  unfold readLast
  rw [Expr.read_capitals]
  rcases Expr.read t with ⟨_ | e, rest⟩
  · rfl
  · dsimp only [leaving]
    simp

@[simp] theorem readBare_capitals (operation : Operation) (t : Text) :
    readBare operation (capitals t) = readBare operation t := by
  unfold readBare
  rw [Text.skipSpaces_capitals]
  cases Text.skipSpaces t <;> rfl

/-- An instruction with its operand and its data does not depend on the case. -/
@[simp] theorem readInstruction_capitals (i : Instruction) (t : Text) :
    readInstruction i (capitals t) = readInstruction i t := by
  unfold readInstruction
  rw [Argument.read_capitals]
  rcases Argument.read i.operand t with ⟨_ | a, rest⟩
  · rfl
  · dsimp only [leaving]
    simp

@[simp] theorem read_capitals (name t : Text) : read name (capitals t) = read name t := by
  unfold read
  simp

end Operation

namespace Shape

/-- The name at the start of a statement is read in upper case. -/
@[simp] theorem readName_capitals (t : Text) : readName (capitals t) = leaving (readName t) := by
  cases t with
  | nil => rfl
  | cons c rest =>
    have hcapitals : capitals (c :: rest) = c.toUpper :: capitals rest := rfl
    have hnext := Token.matches_next (c :: rest)
    unfold readName
    rw [hcapitals] at hnext ⊢
    dsimp only
    rw [Char.isAlpha_toUpper_eq_isAlpha]
    by_cases hperiod : c = '.'
    · rw [if_pos hperiod, if_pos ((Text.toUpper_eq_iff (by decide)).mpr hperiod)]
      rfl
    · rw [if_neg hperiod, if_neg (mt (Text.toUpper_eq_iff (by decide)).mp hperiod)]
      cases c.isAlpha with
      | false => rfl
      | true =>
        generalize Token.next (c :: rest) = found at hnext
        generalize Token.next (c.toUpper :: capitals rest) = found' at hnext
        cases hnext with
        | same token rest => cases token <;> rfl
        | malformed kind t u rest => rfl

/-- Behind a label, what is neither data nor a name is a fault. -/
theorem readLabelled_broken {label t start rest : Text} {kind : Kind}
    (ht : Text.skipSpaces t = start) (hstart : start ≠ []) (hcomma : ∀ c ∈ start.head?, c ≠ ',')
    (hname : readName start = (.error kind, rest)) :
    readLabelled label t = broken (some label) kind := by
  unfold readLabelled
  split <;> rename_i hskip <;> rw [ht] at hskip
  · exact absurd hskip hstart
  · rw [hskip] at hcomma
    exact absurd rfl (hcomma ',' rfl)
  · rw [ht, hname]

/-- Behind a label and a name stands an operation, but no equate. -/
theorem readLabelled_named {label t start name rest : Text}
    (ht : Text.skipSpaces t = start) (hstart : start ≠ []) (hcomma : ∀ c ∈ start.head?, c ≠ ',')
    (hname : readName start = (.ok name, rest)) :
    readLabelled label t = if (Text.skipSpaces rest).head? = some '=' then
      broken (some label) .malformed else ⟨some label, Operation.read name rest⟩ := by
  unfold readLabelled
  split <;> rename_i hskip <;> rw [ht] at hskip
  · exact absurd hskip hstart
  · rw [hskip] at hcomma
    exact absurd rfl (hcomma ',' rfl)
  · rw [ht, hname]
    dsimp only
    split <;> rename_i hequals
    · rw [hequals]
      rfl
    · rw [if_neg, Operation.read_skipSpaces]
      intro h
      cases hrest : Text.skipSpaces rest with
      | nil =>
        rw [hrest] at h
        cases h
      | cons c more =>
        rw [hrest] at h
        exact hequals more (by rw [hrest, Option.some.inj h])

/-- What stands behind a label does not depend on the case. -/
@[simp] theorem readLabelled_capitals (label t : Text) :
    readLabelled label (capitals t) = readLabelled label t := by
  have hskip := Text.skipSpaces_capitals t
  rcases hstart : Text.skipSpaces t with _ | ⟨c, more⟩
  · -- nothing
    rw [hstart] at hskip
    unfold readLabelled
    rw [hskip, hstart]
    rfl
  rcases Text.starts_or (by decide : ','.isAlpha = false) (Text.skipSpaces t) with
    ⟨list, hlist, hlist'⟩ | ⟨hcomma, hcomma'⟩
  · -- data
    unfold readLabelled
    rw [hskip, hlist', hlist]
    exact congrArg (fun data => Shape.mk (some label) (.data data)) (DataList.read_capitals list)
  · -- a name, or what should have been one
    have hne : Text.skipSpaces t ≠ [] := by
      rw [hstart]
      exact List.cons_ne_nil c more
    have hne' : capitals (Text.skipSpaces t) ≠ [] := mt List.map_eq_nil_iff.mp hne
    have hname' := readName_capitals (Text.skipSpaces t)
    rcases hname : readName (Text.skipSpaces t) with ⟨kind | name, rest⟩
    · rw [hname] at hname'
      rw [readLabelled_broken rfl hne hcomma hname, readLabelled_broken hskip hne' hcomma' hname']
    · rw [hname] at hname'
      dsimp only [leaving] at hname'
      rw [readLabelled_named rfl hne hcomma hname, readLabelled_named hskip hne' hcomma' hname',
        Operation.read_capitals, Text.skipSpaces_capitals]
      simp only [Text.head?_capitals (by decide : '='.isAlpha = false)]

/-- A statement that starts with a name does not depend on the case. -/
@[simp] theorem readNamed_capitals (t : Text) : readNamed (capitals t) = readNamed t := by
  have hname' := readName_capitals t
  rcases hname : readName t with ⟨kind | name, rest⟩
  · -- no name
    rw [hname] at hname'
    unfold readNamed
    rw [hname, hname']
    rfl
  rw [hname] at hname'
  rcases Text.starts_or (by decide : ':'.isAlpha = false) rest with
    ⟨behind, rfl, hbehind⟩ | ⟨hcolon, hcolon'⟩
  · -- a label, with a colon behind it
    dsimp only [leaving] at hname'
    rw [hbehind] at hname'
    unfold readNamed
    rw [hname, hname']
    exact readLabelled_capitals name behind
  have hskip := Text.skipSpaces_capitals rest
  rcases Text.starts_or (by decide : '='.isAlpha = false) (Text.skipSpaces rest) with
    ⟨value, hvalue, hvalue'⟩ | ⟨hequals, hequals'⟩
  · -- an equate
    rw [readNamed_equate hname (fun h => hcolon ':' h rfl) hvalue,
      readNamed_equate hname' (fun h => hcolon' ':' h rfl) (hskip.trans hvalue'),
      Operation.readLast_capitals]
  · -- an operation
    rw [readNamed_operation hname (fun h => hcolon ':' h rfl) (fun h => hequals '=' h rfl),
      readNamed_operation hname' (fun h => hcolon' ':' h rfl)
        (fun h => hequals' '=' (hskip ▸ h) rfl)]
    exact congrArg (Shape.mk none) (Operation.read_capitals name rest)

@[simp] theorem isLeading_toUpper (c : Char) : isLeading c.toUpper = isLeading c :=
  Text.apply_toUpper (by decide +kernel) c

theorem read_eq_readNamed {t start : Text} (ht : t.dropWhile isLeading = start)
    (hstart : start ≠ []) (hcomma : ∀ c ∈ start.head?, c ≠ ',') :
    Shape.read t = readNamed start := by
  unfold Shape.read
  split <;> rename_i hdrop <;> rw [ht] at hdrop
  · exact absurd hdrop hstart
  · rw [hdrop] at hcomma
    exact absurd rfl (hcomma ',' rfl)
  · rw [ht]

/-- **The shape of a statement does not depend on the case of its letters.** -/
@[simp] theorem read_capitals (t : Text) : Shape.read (capitals t) = Shape.read t := by
  have hdrop := Text.dropWhile_capitals isLeading_toUpper t
  rcases hstart : t.dropWhile isLeading with _ | ⟨c, more⟩
  · -- an empty statement
    rw [hstart] at hdrop
    unfold Shape.read
    rw [hdrop, hstart]
    rfl
  rcases Text.starts_or (by decide : ','.isAlpha = false) (t.dropWhile isLeading) with
    ⟨list, hlist, hlist'⟩ | ⟨hcomma, hcomma'⟩
  · -- data
    unfold Shape.read
    rw [hdrop, hlist', hlist]
    exact congrArg (fun data => Shape.mk none (.data data)) (DataList.read_capitals list)
  · -- a name
    have hne : t.dropWhile isLeading ≠ [] := by
      rw [hstart]
      exact List.cons_ne_nil c more
    rw [read_eq_readNamed rfl hne hcomma,
      read_eq_readNamed hdrop (mt List.map_eq_nil_iff.mp hne) hcomma', readNamed_capitals]

end Shape

end Cosmac
