import Cosmac.Proofs.SourceText
import Mathlib

/-!
# The spelling of tokens and expressions

How tokens, terms and expressions are written, as relations between a text and what it stands for
that know nothing of the readers:

* `Token.Spells`: words, plain and quoted constants, strings;
* `Term.Spells`, `Expr.OffsetSpells`, `Expr.Spells`: the parts of an expression and the whole.

Every reader is sound and complete for its relation.  Soundness (`Token.spells_of_next`,
`Expr.spells_of_read`): what is read was spelled by the text that was taken.  Completeness
(`Token.next_of_spells`, `Expr.read_of_spells`): a spelled text is read, and nothing behind it,
provided that what stands behind cannot be taken for a part of it.
-/

namespace Cosmac

/-- A reader finds one thing and leaves one text. -/
theorem read_inj {ε α : Type} {a b : α} {t u : Text}
    (h : ((.ok a, t) : Except ε α × Text) = (.ok b, u)) : a = b ∧ t = u := by
  obtain ⟨hok, hrest⟩ := Prod.mk.inj h
  exact ⟨Except.ok.inj hok, hrest⟩

/-! ### Blanks -/

namespace Text

/-- Spaces and tabs, or nothing. -/
def Blanks (t : Text) : Prop := ∀ c ∈ t, isSpace c = true

theorem blanks_nil : Blanks [] := fun _ h => absurd h List.not_mem_nil

theorem Blanks.append {b b' : Text} (h : b.Blanks) (h' : b'.Blanks) : Blanks (b ++ b') := by
  intro c hc
  rcases List.mem_append.mp hc with hc | hc
  · exact h c hc
  · exact h' c hc

/-- Blanks before a text are skipped with those that it starts with. -/
theorem skipSpaces_append {b : Text} (h : b.Blanks) (t : Text) :
    skipSpaces (b ++ t) = skipSpaces t :=
  List.dropWhile_append_of_pos h

@[simp] theorem skipSpaces_skipSpaces (t : Text) : skipSpaces (skipSpaces t) = skipSpaces t :=
  List.dropWhile_idempotent _ t

theorem skipSpaces_of_head {t : Text} (h : ∀ c ∈ t.head?, isSpace c = false) :
    skipSpaces t = t := by
  cases t with
  | nil => rfl
  | cons c rest => simp [skipSpaces, h c rfl]

/-- What is skipped is blanks. -/
theorem exists_blanks (t : Text) : ∃ b, Blanks b ∧ t = b ++ skipSpaces t :=
  ⟨t.takeWhile isSpace, fun _ hc => List.mem_takeWhile_imp hc,
    List.takeWhile_append_dropWhile.symm⟩

theorem blanks_of_skipSpaces {t : Text} (h : skipSpaces t = []) : t.Blanks :=
  List.dropWhile_eq_nil_iff.mp h

/-- The marks of a statement, none of which stands in a word. -/
def marks : List Char := [' ', '\t', '\'', '(', ')', '*', '+', ',', '-', '.', ':', ';', '=']

/-- No mark can stand in a word. -/
theorem isWordChar_of_mem_marks {c : Char} (h : c ∈ marks) : Token.isWordChar c = false := by
  have hmarks : (marks.all fun c => !Token.isWordChar c) = true := by decide +kernel
  have hmark := List.all_eq_true.mp hmarks c h
  rwa [Bool.not_eq_true'] at hmark

/-- The text starts as a term can: with a character of a word or with `*`. -/
def Begins (t : Text) : Prop := ∃ c more, t = c :: more ∧ (Token.isWordChar c = true ∨ c = '*')

theorem Begins.append {t : Text} (h : t.Begins) (u : Text) : Begins (t ++ u) := by
  obtain ⟨c, more, rfl, hc⟩ := h
  exact ⟨c, more ++ u, rfl, hc⟩

/-- The only mark that begins a term is `*`. -/
theorem Begins.head_ne {t : Text} (h : t.Begins) {c : Char} (hmark : c ∈ marks) (hstar : c ≠ '*') :
    t.head? ≠ some c := by
  obtain ⟨d, more, rfl, hword | rfl⟩ := h
  · rintro hd
    rw [Option.some.inj hd, isWordChar_of_mem_marks hmark] at hword
    cases hword
  · exact fun hd => hstar (Option.some.inj hd).symm

theorem isSpace_iff {c : Char} : isSpace c = true ↔ c = ' ' ∨ c = '\t' := by
  rw [isSpace, Bool.or_eq_true, beq_iff_eq, beq_iff_eq]

/-- Nothing is skipped before what begins a term. -/
theorem Begins.skipSpaces_eq {t : Text} (h : t.Begins) : skipSpaces t = t := by
  refine skipSpaces_of_head fun c hc => ?_
  rw [Bool.eq_false_iff]
  intro hspace
  rcases isSpace_iff.mp hspace with rfl | rfl <;> exact h.head_ne (by decide) (by decide) hc

/-- Blanks are skipped up to what begins a term. -/
theorem Begins.skipSpaces_append {b t : Text} (h : t.Begins) (hb : b.Blanks) :
    skipSpaces (b ++ t) = t := by
  rw [Text.skipSpaces_append hb, h.skipSpaces_eq]

/-- What may stand behind an item of a statement: a blank, a comma or the end. -/
def Closes (t : Text) : Prop := ∀ c ∈ t.head?, c = ' ' ∨ c = '\t' ∨ c = ','

/-- What closes an item ends a token as well. -/
theorem Closes.stops {t : Text} (h : t.Closes) : t.Stops := by
  intro c hc
  rcases h c hc with rfl | rfl | rfl <;> exact ⟨isWordChar_of_mem_marks (by decide), by decide⟩

/-- Every mark but the quote ends a token. -/
theorem stops_of_mark {c : Char} (h : c ∈ marks) (hquote : c ≠ '\'') (t : Text) :
    Stops (c :: t) := by
  intro d hd
  obtain rfl := Option.some.inj hd
  exact ⟨isWordChar_of_mem_marks h, hquote⟩

/-- Blanks end a token, and without blanks what follows them does. -/
theorem Blanks.stops {b : Text} (h : b.Blanks) {t : Text} (ht : t.Stops) : Stops (b ++ t) := by
  cases b with
  | nil => exact ht
  | cons c more =>
    rcases isSpace_iff.mp (h c (List.mem_cons_self ..)) with rfl | rfl <;>
      exact stops_of_mark (by decide) (by decide) _

end Text

/-! ### Tokens -/

namespace Token

/-- The text as it is written between quotes: every quote twice. -/
def doubled (t : Text) : Text := t.flatMap fun c => if c = '\'' then ['\'', '\''] else [c]

/-- A run of characters that can stand in a word. -/
def IsRun (t : Text) : Prop := ∀ c ∈ t, isWordChar c = true

/-- What a mark and the characters between its quotes stand for. -/
inductive Literal : Char → Text → Token → Prop
  /-- A binary constant. -/
  | binary {digits : Text} (h : IsBinary digits) : Literal 'B' digits (.binary digits)
  /-- A decimal constant. -/
  | decimal {digits : Text} (h : IsDecimal digits) : Literal 'D' digits (.decimal digits)
  /-- A hexadecimal constant. -/
  | hex {digits : Text} (h : IsHex digits) : Literal 'X' digits (.hex digits)
  /-- A string, which is never empty. -/
  | string {body : Text} (h : body ≠ []) : Literal 'T' body (.string body)

/-- The text spells the token.  Digits and names are checked in upper case. -/
inductive Spells : Text → Token → Prop
  /-- A name starts with a letter. -/
  | word {c : Char} {more : Text} (hletter : c.isAlpha = true) (hword : IsRun more)
      (hname : (Text.upper (c :: more)).IsName) :
      Spells (c :: more) (.word (Text.upper (c :: more)))
  /-- A plain decimal constant. -/
  | decimal {w : Text} (hword : IsRun w) (hdigits : IsDecimal (Text.upper w)) :
      Spells w (.decimal (Text.upper w))
  /-- A hexadecimal constant behind `#`. -/
  | hex {w : Text} (hword : IsRun w) (hdigits : IsHex (Text.upper w)) :
      Spells ('#' :: w) (.hex (Text.upper w))
  /-- A constant or string between quotes, behind its mark in either case. -/
  | literal {mark : Char} {body : Text} {token : Token}
      (hliteral : Literal mark.toUpper (Text.upper body) token) :
      Spells (mark :: '\'' :: doubled body ++ ['\'']) token

/-! ### Quoted parts -/

/-- A doubled quote never ends a quoted part: what is written with its quotes doubled is taken as a
whole, and the part goes on behind it. -/
@[simp] theorem quotedSpan_append (body t : Text) :
    quotedSpan (doubled body ++ t)
      = ⟨body ++ (quotedSpan t).body, (quotedSpan t).closed, (quotedSpan t).rest⟩ := by
  induction body with
  | nil => rfl
  | cons c body ih =>
    rw [doubled, List.flatMap_cons]
    change quotedSpan ((if c = '\'' then ['\'', '\''] else [c]) ++ doubled body ++ _) = _
    -- a quote in the body is written twice, and both are taken at once
    by_cases hc : c = '\''
    · rw [if_pos hc, List.append_assoc]
      show (quotedSpan (doubled body ++ t)).cons '\'' = _
      rw [ih, hc]
      rfl
    · rw [if_neg hc, List.append_assoc, List.singleton_append, quotedSpan, ih]
      · rfl
      · exact fun _ h => absurd h hc
      · exact hc

/-- **A quoted part ends at the first quote that is not doubled.** -/
theorem quotedSpan_doubled (body : Text) {rest : Text} (hrest : ∀ c ∈ rest.head?, c ≠ '\'') :
    quotedSpan (doubled body ++ '\'' :: rest) = ⟨body, true, rest⟩ := by
  have hend : quotedSpan ('\'' :: rest) = ⟨[], true, rest⟩ := by
    rw [quotedSpan]
    rintro rest' rfl
    exact hrest '\'' rfl rfl
  rw [quotedSpan_append, hend, List.append_nil]

/-- Without a closing quote, what is written with its quotes doubled is all there is. -/
@[simp]
theorem quotedSpan_unclosed (body : Text) : quotedSpan (doubled body) = ⟨body, false, []⟩ := by
  have happend := quotedSpan_append body []
  rwa [List.append_nil, quotedSpan, List.append_nil] at happend

@[simp]
theorem doubled_cons {c : Char} (h : c ≠ '\'') (t : Text) : doubled (c :: t) = c :: doubled t := by
  rw [doubled, List.flatMap_cons, if_neg h]
  rfl

/-- A closed quoted part was written with its quotes doubled. -/
theorem doubled_quotedSpan (t : Text) (h : (quotedSpan t).closed = true) :
    t = doubled (quotedSpan t).body ++ '\'' :: (quotedSpan t).rest := by
  fun_induction quotedSpan t with
  | case1 => cases h
  | case2 rest ih => exact congrArg (fun u => '\'' :: '\'' :: u) (ih h)
  | case3 rest => rfl
  | case4 c rest _ hc ih =>
    show c :: rest = doubled (c :: (quotedSpan rest).body) ++ '\'' :: (quotedSpan rest).rest
    rw [doubled_cons hc, List.cons_append, ← ih h]

/-! ### Letters -/

/-- Letters are ASCII. -/
theorem toNat_of_isAlpha {c : Char} (h : c.isAlpha = true) : c.toNat < 128 := by
  have hc : (c.isUpper || c.isLower) = true := h
  rcases Bool.or_eq_true_iff.mp hc with h | h
  · -- capitals
    have := (Text.isUpper_iff c).mp h
    omega
  · -- small letters
    have hlower : (decide ('a'.val ≤ c.val) && decide (c.val ≤ 'z'.val)) = true := h
    have hle : c.toNat ≤ 122 :=
      UInt32.le_iff_toNat_le.mp (of_decide_eq_true (Bool.and_eq_true_iff.mp hlower).2)
    omega

/-- A letter has one capital. -/
theorem upperChar_of_isAlpha {c : Char} (h : c.isAlpha = true) :
    Text.upperChar c = [c.toUpper] :=
  if_pos (toNat_of_isAlpha h)

theorem upper_cons {c : Char} (h : c.isAlpha = true) (more : Text) :
    Text.upper (c :: more) = c.toUpper :: Text.upper more := by
  rw [Text.upper, List.flatMap_cons, upperChar_of_isAlpha h]
  rfl

theorem isWordChar_of_isAlpha {c : Char} (h : c.isAlpha = true) : isWordChar c = true := by
  have halphanum : c.isAlphanum = true := by
    show (c.isAlpha || c.isDigit) = true
    rw [h, Bool.true_or]
  simp [isWordChar, Text.isAlphanumeric, halphanum]

/-! ### Well-formed tokens -/

/-- A token that is checked when it is made and passed the check. -/
theorem of_error?_eq_none {p : Prop} [Decidable p] {token : Token} {kind : Kind} {text : Text}
    (h : (if p then token else .malformed kind text).error? = none) :
    p ∧ (if p then token else .malformed kind text) = token := by
  split_ifs at h ⊢ with hp
  · exact ⟨hp, rfl⟩
  · exact absurd h (Option.some_ne_none _)

theorem ofBinary_eq {digits : Text} (h : (ofBinary digits).error? = none) :
    IsBinary digits ∧ ofBinary digits = .binary digits :=
  of_error?_eq_none h

theorem ofDecimal_eq {digits : Text} (h : (ofDecimal digits).error? = none) :
    IsDecimal digits ∧ ofDecimal digits = .decimal digits :=
  of_error?_eq_none h

theorem ofString_eq {body : Text} (h : (ofString body).error? = none) :
    body ≠ [] ∧ ofString body = .string body := by
  cases body with
  | nil => exact absurd h (Option.some_ne_none _)
  | cons c rest => exact ⟨List.cons_ne_nil _ _, rfl⟩

theorem ofWord_eq {word : Text} (h : (ofWord word).error? = none) :
    word.IsName ∧ ofWord word = .word word := by
  obtain ⟨hall, hword⟩ : word.all isNameChar = true ∧ ofWord word = .word word :=
    of_error?_eq_none h
  exact ⟨List.all_eq_true.mp hall, hword⟩

/-- The hexadecimal digits are checked in upper case, as they are kept. -/
theorem ofHex_upper {t : Text} (h : IsHex (Text.upper t)) :
    ofHex (Text.upper t) = .hex (Text.upper t) :=
  if_pos ((isHexWord_upper t).mpr h)

theorem ofHex_eq {t : Text} (h : (ofHex (Text.upper t)).error? = none) :
    IsHex (Text.upper t) ∧ ofHex (Text.upper t) = .hex (Text.upper t) := by
  obtain ⟨hword, htoken⟩ :
      isHexWord (Text.upper t) = true ∧ ofHex (Text.upper t) = .hex (Text.upper t) :=
    of_error?_eq_none h
  exact ⟨(isHexWord_upper t).mp hword, htoken⟩

/-- The mark of a literal is a letter, in either case. -/
theorem Literal.isAlpha {mark : Char} {body : Text} {token : Token}
    (h : Literal mark.toUpper body token) : mark.isAlpha = true := by
  rw [← Char.isUpper_toUpper_eq_isAlpha]
  generalize mark.toUpper = capital at h ⊢
  cases h <;> decide

/-- No literal is a name. -/
theorem Literal.ne_word {mark : Char} {body : Text} {token : Token} (h : Literal mark body token)
    (w : Text) : token ≠ .word w := by
  cases h <;> exact nofun

/-- **A literal is made** from its mark and what stands between its quotes. -/
theorem ofLiteral_of_literal {mark : Char} {body rest : Text} {token : Token}
    (h : Literal mark (Text.upper body) token) : ofLiteral [mark] ⟨body, true, rest⟩ = token := by
  generalize hbody : Text.upper body = digits at h
  cases h with
  | binary h => exact (congrArg ofBinary hbody).trans (if_pos h)
  | decimal h => exact (congrArg ofDecimal hbody).trans (if_pos h)
  | hex h =>
    subst hbody
    exact ofHex_upper h
  | string h =>
    -- only the empty string is refused
    refine (congrArg ofString hbody).trans (if_neg ?_)
    rwa [List.isEmpty_iff]

/-- A well-formed token between quotes is one of the literals, and its quotes were closed. -/
theorem literal_of_ofLiteral {mark : Text} {span : QuotedSpan}
    (h : (ofLiteral mark span).error? = none) :
    ∃ m, mark = [m] ∧ span.closed = true ∧
      Literal m (Text.upper span.body) (ofLiteral mark span) := by
  unfold ofLiteral at h ⊢
  dsimp only at h ⊢
  -- one case for each mark, and the last one for every other word before a quote
  split at h
  · obtain ⟨hclosed, hmade⟩ := of_error?_eq_none h
    rw [hmade] at h ⊢
    obtain ⟨hdigits, htoken⟩ := ofBinary_eq h
    exact ⟨_, rfl, hclosed, htoken ▸ .binary hdigits⟩
  · obtain ⟨hclosed, hmade⟩ := of_error?_eq_none h
    rw [hmade] at h ⊢
    obtain ⟨hdigits, htoken⟩ := ofDecimal_eq h
    exact ⟨_, rfl, hclosed, htoken ▸ .decimal hdigits⟩
  · obtain ⟨hclosed, hmade⟩ := of_error?_eq_none h
    rw [hmade] at h ⊢
    obtain ⟨hbody, htoken⟩ := ofString_eq h
    exact ⟨_, rfl, hclosed, htoken ▸ .string hbody⟩
  · obtain ⟨hclosed, hmade⟩ := of_error?_eq_none h
    rw [hmade] at h ⊢
    obtain ⟨hdigits, htoken⟩ := ofHex_eq h
    exact ⟨_, rfl, hclosed, htoken ▸ .hex hdigits⟩
  · -- no other word may stand before a quote
    exact absurd h (Option.some_ne_none _)

/-! ### Scanning -/

theorem head_dropWhile {p : Char → Bool} {t : Text} :
    ∀ c ∈ (t.dropWhile p).head?, p c = false := by
  intro c hc
  have hnot := List.head?_dropWhile_not p t
  rw [hc] at hnot
  exact hnot

/-- A digit in upper case comes neither from a letter nor from `#`. -/
theorem of_isDigit_toUpper {c : Char} (h : c.toNat < 128) (hdigit : c.toUpper.isDigit = true) :
    c.isAlpha = false ∧ c ≠ '#' := by
  revert hdigit
  refine Text.of_forall_lt h ?_
  decide +kernel

/-- A plain decimal constant starts neither as a name nor as a hexadecimal constant. -/
theorem IsDecimal.head {w : Text} (h : IsDecimal (Text.upper w)) :
    ∃ c more, w = c :: more ∧ c.isAlpha = false ∧ c ≠ '#' := by
  obtain ⟨hlength, _, hdigits, _⟩ := h
  cases w with
  | nil => cases hlength
  | cons c more =>
    refine ⟨c, more, rfl, ?_⟩
    by_cases hascii : c.toNat < 128
    · have hupper : Text.upperChar c = [c.toUpper] := if_pos hascii
      refine of_isDigit_toUpper hascii (List.all_eq_true.mp hdigits _ ?_)
      rw [Text.upper, List.flatMap_cons, hupper]
      exact List.mem_cons_self ..
    · -- letters and `#` are ASCII
      refine ⟨Bool.eq_false_iff.mpr fun h => hascii (toNat_of_isAlpha h), ?_⟩
      rintro rfl
      exact hascii (by decide)

/-- A letter before a quote is the mark of a literal. -/
theorem next_marked {mark : Char} (h : mark.isAlpha = true) (inside : Text) :
    next (mark :: '\'' :: inside)
      = (ofLiteral [mark.toUpper] (quotedSpan inside), (quotedSpan inside).rest) := by
  have hmark : mark ≠ '#' := by
    rintro rfl
    exact absurd h (by decide)
  have hword : ∀ d ∈ [mark], isWordChar d = true :=
    List.forall_mem_singleton.mpr (isWordChar_of_isAlpha h)
  -- the word that is scanned is the mark alone, since a quote follows it
  have hrun := @next_run mark [] ('\'' :: inside) hword hmark (by
    intro d hd
    obtain rfl := Option.some.inj hd
    exact Text.isWordChar_of_mem_marks (by decide))
  refine hrun.trans ?_
  unfold nextWord
  dsimp only
  rw [if_pos h, upper_cons h]
  rfl

/-- **A spelled token is scanned**, where it cannot go on. -/
theorem next_of_spells {p rest : Text} {token : Token} (h : Spells p token) (hrest : rest.Stops) :
    next (p ++ rest) = (token, rest) := by
  have hend : ∀ d ∈ rest.head?, isWordChar d = false := fun d hd => (hrest d hd).1
  have hquote : ∀ d ∈ rest.head?, d ≠ '\'' := fun d hd => (hrest d hd).2
  cases h with
  | @word c more hletter hword hname =>
    have hall : ∀ d ∈ c :: more, isWordChar d = true :=
      List.forall_mem_cons.mpr ⟨isWordChar_of_isAlpha hletter, hword⟩
    have hmark : c ≠ '#' := by
      rintro rfl
      exact absurd hletter (by decide)
    rw [next_run hall hmark hend]
    unfold nextWord
    dsimp only
    rw [if_pos hletter, nextNamed_stops hquote]
    exact congrArg (·, rest) (if_pos (List.all_eq_true.mpr hname))
  | decimal hword hdigits =>
    obtain ⟨c, more, rfl, hletter, hmark⟩ := hdigits.head
    rw [next_run hword hmark hend]
    unfold nextWord
    dsimp only
    rw [if_neg (by rw [hletter]; exact Bool.false_ne_true)]
    exact congrArg (·, rest) (if_pos hdigits)
  | @hex w hword hdigits =>
    show (ofHex (Text.upper ((w ++ rest).takeWhile isWordChar)), (w ++ rest).dropWhile isWordChar)
      = _
    rw [takeWhile_run hword hend, dropWhile_run hword hend, ofHex_upper hdigits]
  | @literal mark body _ hliteral =>
    have hspan : quotedSpan (doubled body ++ ['\''] ++ rest) = ⟨body, true, rest⟩ := by
      rw [List.append_assoc]
      exact quotedSpan_doubled body hquote
    have hmarked := next_marked hliteral.isAlpha (doubled body ++ ['\''] ++ rest)
    rw [hspan, ofLiteral_of_literal hliteral] at hmarked
    exact hmarked

/-- What is scanned from a word was spelled by it.  Behind a name no word goes on. -/
theorem spells_nextWord {word behind rest : Text} {token : Token} (hword : IsRun word)
    (hbehind : ∀ c ∈ behind.head?, isWordChar c = false)
    (h : nextWord word behind = (token, rest)) (hempty : token ≠ .empty)
    (herror : token.error? = none) :
    ∃ p, word ++ behind = p ++ rest ∧ Spells p token ∧ ∀ w, token = .word w → rest.Stops := by
  cases word with
  | nil => exact absurd (Prod.mk.inj h).1.symm hempty
  | cons c more =>
    unfold nextWord at h
    dsimp only at h
    split_ifs at h with hletter
    · -- behind a letter, a quote decides between a name and a literal
      by_cases hquote : ∀ d ∈ behind.head?, d ≠ '\''
      · rw [nextNamed_stops hquote] at h
        obtain ⟨rfl, rfl⟩ := Prod.mk.inj h
        obtain ⟨hname, htoken⟩ := ofWord_eq herror
        exact ⟨c :: more, rfl, htoken ▸ .word hletter (List.forall_mem_cons.mp hword).2 hname,
          fun _ _ d hd => ⟨hbehind d hd, hquote d hd⟩⟩
      · -- at a quote, the word before it has to be a single mark
        simp only [not_forall, not_not] at hquote
        obtain ⟨_, hd, rfl⟩ := hquote
        obtain ⟨inside, rfl⟩ := List.head?_eq_some_iff.mp hd
        obtain ⟨rfl, rfl⟩ := Prod.mk.inj h
        obtain ⟨m, hmark, hclosed, hliteral⟩ := literal_of_ofLiteral herror
        rw [upper_cons hletter] at hmark
        obtain ⟨rfl, hmore⟩ := List.cons.inj hmark
        obtain rfl := Text.upper_eq_nil hmore
        refine ⟨_, ?_, .literal hliteral, ?_⟩
        · conv_lhs => rw [doubled_quotedSpan inside hclosed]
          simp
        · exact fun w hw => absurd hw (hliteral.ne_word w)
    · -- what starts with no letter is a decimal constant or malformed
      obtain ⟨rfl, rfl⟩ := Prod.mk.inj h
      obtain ⟨hdigits, htoken⟩ := ofDecimal_eq herror
      exact ⟨c :: more, rfl, htoken ▸ .decimal hword hdigits,
        fun w hw => absurd (htoken.symm.trans hw) nofun⟩

/-- **A token that is scanned was spelled** by the text that it took. -/
theorem spells_of_next {t rest : Text} {token : Token} (h : next t = (token, rest))
    (hempty : token ≠ .empty) (herror : token.error? = none) :
    ∃ p, t = p ++ rest ∧ Spells p token ∧ ∀ w, token = .word w → rest.Stops := by
  unfold next at h
  split at h
  · -- at the end of the text
    exact absurd (Prod.mk.inj h).1.symm hempty
  · -- a quote starts no token
    obtain ⟨rfl, rfl⟩ := Prod.mk.inj h
    exact absurd herror (Option.some_ne_none _)
  · -- a number sign, and the digits behind it
    rename_i digits
    obtain ⟨rfl, rfl⟩ := Prod.mk.inj h
    obtain ⟨hdigits, htoken⟩ := ofHex_eq herror
    refine ⟨'#' :: digits.takeWhile isWordChar, ?_, ?_, ?_⟩
    · rw [List.cons_append, List.takeWhile_append_dropWhile]
    · exact htoken ▸ .hex (fun _ hc => List.mem_takeWhile_imp hc) hdigits
    · exact fun w hw => absurd (htoken.symm.trans hw) nofun
  · -- a word
    obtain ⟨p, hp, hspells, hstops⟩ :=
      spells_nextWord (fun _ hc => List.mem_takeWhile_imp hc) head_dropWhile h hempty herror
    exact ⟨p, List.takeWhile_append_dropWhile.symm.trans hp, hspells, hstops⟩

/-- No token starts with a character that stands in no word. -/
theorem next_mark {c : Char} (hword : isWordChar c = false) (hquote : c ≠ '\'') (t : Text) :
    next (c :: t) = (.empty, c :: t) := by
  have hneg : ¬ isWordChar c = true := by rw [hword]; exact Bool.false_ne_true
  unfold next
  split
  · -- the text is not empty, and it starts neither with a quote nor with a number sign
    rename_i h
    cases h
  · rename_i h
    exact absurd (List.cons.inj h).1 hquote
  · rename_i h
    rw [(List.cons.inj h).1] at hword
    exact absurd hword (by decide +kernel)
  · rw [List.takeWhile_cons_of_neg hneg, List.dropWhile_cons_of_neg hneg]
    rfl

/-- A token starts with a character of a word, and a word or a quote goes on behind it. -/
theorem Spells.head {p : Text} {token : Token} (h : Spells p token) :
    ∃ c more, p = c :: more ∧ isWordChar c = true ∧
      ∀ d ∈ more.head?, isWordChar d = true ∨ d = '\'' := by
  have hrun : ∀ {more : Text}, IsRun more → ∀ d ∈ more.head?, isWordChar d = true ∨ d = '\'' :=
    fun hword d hd => Or.inl (hword d (List.mem_of_mem_head? hd))
  cases h with
  | word hletter hword _ => exact ⟨_, _, rfl, isWordChar_of_isAlpha hletter, hrun hword⟩
  | decimal hword hdigits =>
    obtain ⟨c, more, rfl, _⟩ := hdigits.head
    obtain ⟨hc, hmore⟩ := List.forall_mem_cons.mp hword
    exact ⟨c, more, rfl, hc, hrun hmore⟩
  | hex hword _ => exact ⟨_, _, rfl, by decide +kernel, hrun hword⟩
  | literal hliteral =>
    refine ⟨_, _, rfl, isWordChar_of_isAlpha hliteral.isAlpha, ?_⟩
    exact fun d hd => Or.inr (Option.some.inj hd).symm

theorem Spells.begins {p : Text} {token : Token} (h : Spells p token) : p.Begins := by
  obtain ⟨c, more, hp, hc, _⟩ := h.head
  exact ⟨c, more, hp, Or.inl hc⟩

/-- The word of a name is one. -/
theorem Spells.isName {p w : Text} (h : Spells p (.word w)) : w.IsName := by
  cases h with
  | word _ _ hname => exact hname
  | literal hliteral => exact absurd rfl (hliteral.ne_word _)

end Token

/-! ### Terms -/

/-- The text spells the term. -/
inductive Term.Spells : Text → Term → Prop
  /-- The location counter. -/
  | here : Spells ['*'] .here
  /-- A constant. -/
  | constant {p : Text} {token : Token} {n : Nat} (htoken : Token.Spells p token)
      (hconstant : token.isConstant = true) (hvalue : token.value? = some n) :
      Spells p (.constant n)
  /-- A string, for its first character. -/
  | character {p s : Text} (htoken : Token.Spells p (.string s)) :
      Spells p (.character (Token.firstByte s))
  /-- A name. -/
  | name {p w : Text} (htoken : Token.Spells p (.word w)) : Spells p (.name w)

/-- The term that a token stands for, or what is wrong with it. -/
def Term.ofToken : Token → Except Kind Term
  | .empty => .error .missingExpression
  | .malformed kind _ => .error kind
  | .string s => .ok (.character (Token.firstByte s))
  | .binary digits => .ok (.constant (Token.number 2 digits))
  | .decimal digits => .ok (.constant (Token.number 10 digits))
  | .hex digits => .ok (.constant (Token.number 16 digits))
  | .word w => .ok (.name w)

/-- Away from `*`, a term is what its token stands for. -/
theorem Term.read_eq {t : Text} (h : ∀ c ∈ t.head?, c ≠ '*') :
    Term.read t = (Term.ofToken (Token.next t).1, (Token.next t).2) := by
  unfold Term.read
  split
  · exact absurd rfl (h '*' rfl)
  · split <;> rename_i htoken <;> rw [htoken] <;> rfl

/-- **A spelled term is read.** -/
theorem Term.read_of_spells {p rest : Text} {term : Term} (h : Term.Spells p term)
    (hrest : rest.Stops) : Term.read (p ++ rest) = (.ok term, rest) := by
  -- a token does not start with `*`, so its term is read from the token
  have hread : ∀ {token : Token}, Token.Spells p token →
      Term.read (p ++ rest) = (Term.ofToken token, rest) := by
    intro token htoken
    obtain ⟨c, more, rfl, hc, _⟩ := htoken.head
    have hstar : ∀ d ∈ (c :: more ++ rest).head?, d ≠ '*' := by
      rintro d hd rfl
      rw [Option.some.inj hd, Text.isWordChar_of_mem_marks (by decide)] at hc
      cases hc
    rw [Term.read_eq hstar, Token.next_of_spells htoken hrest]
  cases h with
  | here => rfl
  | @constant _ token n htoken hconstant hvalue =>
    rw [hread htoken]
    cases token with
    | binary | decimal | hex => rw [← Option.some.inj hvalue]; rfl
    | empty | malformed | string | word =>
      -- none of these is a constant
      cases hconstant
  | character htoken => exact hread htoken
  | name htoken => exact hread htoken

/-- **A term that is read was spelled.** -/
theorem Term.spells_of_read {t rest : Text} {term : Term} (h : Term.read t = (.ok term, rest)) :
    ∃ p, t = p ++ rest ∧ Term.Spells p term := by
  by_cases hstar : ∀ c ∈ t.head?, c ≠ '*'
  · rw [Term.read_eq hstar] at h
    obtain ⟨hterm, hrest⟩ := Prod.mk.inj h
    have hnext : Token.next t = ((Token.next t).1, rest) := by rw [← hrest]
    generalize (Token.next t).1 = token at hterm hnext
    cases token with
    | empty | malformed => cases hterm
    | string s =>
      obtain rfl := Except.ok.inj hterm
      obtain ⟨p, hp, hspells, _⟩ := Token.spells_of_next hnext nofun rfl
      exact ⟨p, hp, .character hspells⟩
    | binary | decimal | hex =>
      obtain rfl := Except.ok.inj hterm
      obtain ⟨p, hp, hspells, _⟩ := Token.spells_of_next hnext nofun rfl
      exact ⟨p, hp, .constant hspells rfl rfl⟩
    | word w =>
      obtain rfl := Except.ok.inj hterm
      obtain ⟨p, hp, hspells, _⟩ := Token.spells_of_next hnext nofun rfl
      exact ⟨p, hp, .name hspells⟩
  · -- a star is the location counter, whatever stands behind it
    simp only [not_forall, not_not] at hstar
    obtain ⟨_, hc, rfl⟩ := hstar
    obtain ⟨behind, rfl⟩ := List.head?_eq_some_iff.mp hc
    obtain ⟨rfl, rfl⟩ := read_inj h
    exact ⟨['*'], rfl, .here⟩

/-- A term does not look like the start of a form. -/
theorem Term.Spells.head {p : Text} {term : Term} (h : Term.Spells p term) :
    ∃ c more, p = c :: more ∧ (Token.isWordChar c = true ∨ c = '*') ∧
      ∀ d ∈ more.head?, d ≠ '(' ∧ d ≠ '.' := by
  have htoken : ∀ {token : Token}, Token.Spells p token → ∃ c more, p = c :: more ∧
      (Token.isWordChar c = true ∨ c = '*') ∧ ∀ d ∈ more.head?, d ≠ '(' ∧ d ≠ '.' := by
    intro token htoken
    obtain ⟨c, more, hp, hc, hmore⟩ := htoken.head
    refine ⟨c, more, hp, Or.inl hc, fun d hd => ?_⟩
    rcases hmore d hd with h | rfl
    · -- a bracket or a dot stands in no word
      constructor <;> rintro rfl <;> rw [Text.isWordChar_of_mem_marks (by decide)] at h <;> cases h
    · -- and a quote is neither of them
      decide
  cases h with
  | here => exact ⟨'*', [], rfl, Or.inr rfl, nofun⟩
  | constant h => exact htoken h
  | character h => exact htoken h
  | name h => exact htoken h

theorem Term.Spells.begins {p : Text} {term : Term} (h : Term.Spells p term) : p.Begins := by
  obtain ⟨c, more, hp, hc, _⟩ := h.head
  exact ⟨c, more, hp, hc⟩

namespace Expr

/-! ### Offsets -/

/-- The text spells what is added to a term. -/
inductive OffsetSpells : Text → Option Int → Prop
  /-- Nothing is added. -/
  | nothing : OffsetSpells [] none
  /-- A constant is added. -/
  | plus {p : Text} {token : Token} {n : Nat} (htoken : Token.Spells p token)
      (hconstant : token.isConstant = true) (hvalue : token.value? = some n) :
      OffsetSpells ('+' :: p) (some n)
  /-- A constant is subtracted. -/
  | minus {p : Text} {token : Token} {n : Nat} (htoken : Token.Spells p token)
      (hconstant : token.isConstant = true) (hvalue : token.value? = some n) :
      OffsetSpells ('-' :: p) (some (-n))

/-- A spelled constant is read as its value. -/
theorem readConstant_of_spells {p rest : Text} {token : Token} {n : Nat}
    (htoken : Token.Spells p token) (hconstant : token.isConstant = true)
    (hvalue : token.value? = some n) (hrest : rest.Stops) :
    readConstant (p ++ rest) = (.ok n, rest) := by
  unfold readConstant
  rw [Token.next_of_spells htoken hrest]
  cases token with
  | binary | decimal | hex => rw [← Option.some.inj hvalue]
  | empty | malformed | string | word => cases hconstant

/-- A constant that is read was spelled. -/
theorem spells_of_readConstant {t rest : Text} {n : Nat} (h : readConstant t = (.ok n, rest)) :
    ∃ p token, t = p ++ rest ∧ Token.Spells p token ∧ token.isConstant = true ∧
      token.value? = some n := by
  -- the same for each of the three kinds of constants
  have hspells : ∀ {token : Token} {m : Nat} {behind : Text}, Token.next t = (token, behind) →
      token.isConstant = true → token.value? = some m →
      ((.ok m, behind) : Except Kind Nat × Text) = (.ok n, rest) →
      ∃ p token, t = p ++ rest ∧ Token.Spells p token ∧ token.isConstant = true ∧
        token.value? = some n := by
    intro token m behind hnext hconstant hvalue hread
    obtain ⟨rfl, rfl⟩ := read_inj hread
    have hempty : token ≠ .empty := by
      rintro rfl
      cases hconstant
    have herror : token.error? = none := by
      cases token with
      | malformed => cases hconstant
      | _ => rfl
    obtain ⟨p, hp, htoken, _⟩ := Token.spells_of_next hnext hempty herror
    exact ⟨p, token, hp, htoken, hconstant, hvalue⟩
  unfold readConstant at h
  split at h <;> rename_i hnext
  · cases (Prod.mk.inj h).1
  · exact hspells hnext rfl rfl h
  · exact hspells hnext rfl rfl h
  · exact hspells hnext rfl rfl h
  · cases (Prod.mk.inj h).1

/-- An offset starts with a sign, which ends the term before it. -/
theorem OffsetSpells.stops {q rest : Text} {offset : Option Int} (h : OffsetSpells q offset)
    (hrest : rest.Stops) : Text.Stops (q ++ rest) := by
  cases h with
  | nothing => exact hrest
  | plus => exact Text.stops_of_mark (by decide) (by decide) _
  | minus => exact Text.stops_of_mark (by decide) (by decide) _

/-- No sign stands at the start of the text. -/
def Unsigned (t : Text) : Prop := ∀ c ∈ t.head?, c ≠ '+' ∧ c ≠ '-'

/-- **A spelled offset is read**; where none is spelled, no sign may follow. -/
theorem readOffset_of_spells {q rest : Text} {offset : Option Int} (h : OffsetSpells q offset)
    (hrest : rest.Stops) (hsign : Unsigned rest) : readOffset (q ++ rest) = (.ok offset, rest) := by
  cases h with
  | nothing =>
    rw [List.nil_append]
    unfold readOffset
    split
    · exact absurd rfl (hsign '+' rfl).1
    · exact absurd rfl (hsign '-' rfl).2
    · rfl
  | plus htoken hconstant hvalue =>
    rw [List.cons_append, readOffset, readConstant_of_spells htoken hconstant hvalue hrest]
  | minus htoken hconstant hvalue =>
    rw [List.cons_append, readOffset, readConstant_of_spells htoken hconstant hvalue hrest]

/-- An offset that is read was spelled, behind its sign. -/
theorem spells_of_readOffset {t rest : Text} {offset : Option Int}
    (h : readOffset t = (.ok offset, rest)) : ∃ q, t = q ++ rest ∧ OffsetSpells q offset := by
  unfold readOffset at h
  split at h
  · split at h <;> rename_i hread
    · obtain ⟨rfl, rfl⟩ := read_inj h
      obtain ⟨p, token, rfl, htoken, hconstant, hvalue⟩ := spells_of_readConstant hread
      exact ⟨'+' :: p, rfl, .plus htoken hconstant hvalue⟩
    · cases (Prod.mk.inj h).1
  · split at h <;> rename_i hread
    · obtain ⟨rfl, rfl⟩ := read_inj h
      obtain ⟨p, token, rfl, htoken, hconstant, hvalue⟩ := spells_of_readConstant hread
      exact ⟨'-' :: p, rfl, .minus htoken hconstant hvalue⟩
    · cases (Prod.mk.inj h).1
  · obtain ⟨rfl, rfl⟩ := read_inj h
    exact ⟨[], rfl, .nothing⟩

/-! ### Forms -/

/-- The text opens the form of the selector. -/
inductive Opens : Text → Selector → Prop
  /-- The address. -/
  | address {a : Char} (h : a.toUpper = 'A') : Opens [a, '('] .address
  /-- The low byte. -/
  | low {a : Char} (h : a.toUpper = 'A') : Opens [a, '.', '0', '('] .low
  /-- The high byte. -/
  | high {a : Char} (h : a.toUpper = 'A') : Opens [a, '.', '1', '('] .high

/-- The text spells the expression: a term with an offset, or a form around one, inside which
blanks may stand at either end. -/
inductive Spells : Text → Expr → Prop
  /-- No form. -/
  | plain {p q : Text} {term : Term} {offset : Option Int} (hterm : Term.Spells p term)
      (hoffset : OffsetSpells q offset) : Spells (p ++ q) ⟨.plain, term, offset⟩
  /-- A form. -/
  | form {o b p q b' : Text} {selector : Selector} {term : Term} {offset : Option Int}
      (hopen : Opens o selector) (hbefore : b.Blanks) (hterm : Term.Spells p term)
      (hoffset : OffsetSpells q offset) (hafter : b'.Blanks) :
      Spells (o ++ b ++ p ++ q ++ b' ++ [')']) ⟨selector, term, offset⟩

theorem Opens.ne_plain {o : Text} {selector : Selector} (h : Opens o selector) :
    selector ≠ .plain := by
  cases h <;> exact nofun

/-- What opens a form is read as its selector. -/
theorem readSelector_of_opens {o : Text} {selector : Selector} (h : Opens o selector)
    (inside : Text) : readSelector (o ++ inside) = (.ok selector, inside) := by
  cases h with
  | address h => exact if_pos h
  | low h => exact if_pos h
  | high h => exact if_pos h

/-- Without a bracket or a dot behind the first character there is no form. -/
theorem readSelector_plain {c : Char} {t : Text} (h : ∀ d ∈ t.head?, d ≠ '(' ∧ d ≠ '.') :
    readSelector (c :: t) = (.ok .plain, c :: t) := by
  unfold readSelector
  split
  · rename_i heq
    obtain ⟨_, rfl⟩ := List.cons.inj heq
    exact absurd rfl (h '(' rfl).1
  · rename_i heq
    obtain ⟨_, rfl⟩ := List.cons.inj heq
    exact absurd rfl (h '.' rfl).2
  · rfl

/-- A selector that is read was spelled, or there is none and nothing was taken. -/
theorem opens_of_readSelector {t rest : Text} {selector : Selector}
    (h : readSelector t = (.ok selector, rest)) :
    selector = .plain ∧ rest = t ∨ ∃ o, t = o ++ rest ∧ Opens o selector := by
  have hplain : ((.ok .plain, t) : Except Kind Selector × Text) = (.ok selector, rest) →
      selector = .plain ∧ rest = t := by
    intro hread
    obtain ⟨rfl, rfl⟩ := read_inj hread
    exact ⟨rfl, rfl⟩
  unfold readSelector at h
  split at h
  · split_ifs at h with ha
    · obtain ⟨rfl, rfl⟩ := read_inj h
      exact Or.inr ⟨_, rfl, .address ha⟩
    · exact Or.inl (hplain h)
  · split_ifs at h with ha
    · split at h
      · obtain ⟨rfl, rfl⟩ := read_inj h
        exact Or.inr ⟨_, rfl, .low ha⟩
      · obtain ⟨rfl, rfl⟩ := read_inj h
        exact Or.inr ⟨_, rfl, .high ha⟩
      -- after the dot of a form there is `0(` or `1(`, or an error
      all_goals cases (Prod.mk.inj h).1
    · exact Or.inl (hplain h)
  · exact Or.inl (hplain h)

/-! ### Expressions -/

/-- The head is a selector and a term, with blanks before each. -/
theorem readHead_eq_ok {t rest : Text} {selector : Selector} {term : Term} :
    readHead t = (.ok (selector, term), rest) ↔
      ∃ inside, readSelector (Text.skipSpaces t) = (.ok selector, inside) ∧
        Term.read (Text.skipSpaces inside) = (.ok term, rest) := by
  unfold readHead
  constructor
  · intro h
    split at h <;> rename_i hselector
    · cases (Prod.mk.inj h).1
    · split at h <;> rename_i hterm <;> obtain ⟨hhead, rfl⟩ := Prod.mk.inj h
      · cases hhead
      · obtain ⟨rfl, rfl⟩ := Prod.mk.inj (Except.ok.inj hhead)
        exact ⟨_, hselector, hterm⟩
  · rintro ⟨inside, hselector, hterm⟩
    rw [hselector]
    dsimp only
    rw [hterm]

/-- The tail is an offset and, for a form, the closing bracket behind blanks. -/
theorem readTail_eq_ok {t behind : Text} {selector : Selector} {offset : Option Int} :
    readTail selector t = (.ok offset, behind) ↔
      ∃ rest, readOffset t = (.ok offset, rest) ∧
        if selector = .plain then behind = rest else Text.skipSpaces rest = ')' :: behind := by
  unfold readTail
  constructor
  · intro h
    split at h <;> rename_i hoffset
    · cases (Prod.mk.inj h).1
    · split_ifs at h ⊢ with hselector
      · obtain ⟨rfl, rfl⟩ := read_inj h
        exact ⟨_, hoffset, rfl⟩
      · split at h <;> rename_i hclose <;> obtain ⟨hok, rfl⟩ := Prod.mk.inj h
        · obtain rfl := Except.ok.inj hok
          exact ⟨_, hoffset, hclose⟩
        · cases hok
  · rintro ⟨rest, hoffset, hclose⟩
    rw [hoffset]
    dsimp only
    split_ifs at hclose ⊢
    · rw [hclose]
    · rw [hclose]
      rfl

/-- An expression is its head and its tail. -/
theorem read_eq_ok {t behind : Text} {selector : Selector} {term : Term} {offset : Option Int} :
    Expr.read t = (.ok ⟨selector, term, offset⟩, behind) ↔
      ∃ rest, readHead t = (.ok (selector, term), rest) ∧
        readTail selector rest = (.ok offset, behind) := by
  unfold Expr.read
  constructor
  · intro h
    split at h <;> rename_i hhead
    · cases (Prod.mk.inj h).1
    · split at h <;> rename_i htail <;> obtain ⟨hok, rfl⟩ := Prod.mk.inj h
      · cases hok
      · cases hok
        exact ⟨_, hhead, htail⟩
  · rintro ⟨rest, hhead, htail⟩
    rw [hhead]
    dsimp only
    rw [htail]

theorem forall_head_append {P : Char → Prop} {t u : Text} (ht : ∀ c ∈ t.head?, P c)
    (hu : ∀ c ∈ u.head?, P c) : ∀ c ∈ (t ++ u).head?, P c := by
  cases t with
  | nil => exact hu
  | cons => exact ht

/-- A form does not start behind a term. -/
theorem OffsetSpells.not_opens {q rest : Text} {offset : Option Int} (h : OffsetSpells q offset)
    (hrest : rest.Closes) : ∀ d ∈ (q ++ rest).head?, d ≠ '(' ∧ d ≠ '.' := by
  refine forall_head_append (fun d hd => ?_) fun d hd => ?_
  · cases h with
    | nothing => cases hd
    | plus | minus =>
      obtain rfl := Option.some.inj hd
      decide
  · rcases hrest d hd with rfl | rfl | rfl <;> decide

/-- The letter of a form can be a small one. -/
theorem isAlpha_of_toUpper_eq {a : Char} (ha : a.toUpper = 'A') : a.isAlpha = true := by
  rw [← Char.isUpper_toUpper_eq_isAlpha, ha]
  decide

/-- A form starts with its letter. -/
theorem Opens.begins {o : Text} {selector : Selector} (h : Opens o selector) : o.Begins := by
  have hletter : ∀ {a : Char}, a.toUpper = 'A' → Token.isWordChar a = true := fun ha =>
    Token.isWordChar_of_isAlpha (isAlpha_of_toUpper_eq ha)
  cases h with
  | address h => exact ⟨_, _, rfl, Or.inl (hletter h)⟩
  | low h => exact ⟨_, _, rfl, Or.inl (hletter h)⟩
  | high h => exact ⟨_, _, rfl, Or.inl (hletter h)⟩

theorem Spells.begins {p : Text} {e : Expr} (h : Spells p e) : p.Begins := by
  cases h with
  | plain hterm => exact hterm.begins.append _
  | form hopen =>
    simp only [List.append_assoc]
    exact hopen.begins.append _

/-- **A spelled expression is read**, behind blanks, where it cannot go on. -/
theorem read_of_spells {b p rest : Text} {e : Expr} (hb : b.Blanks) (h : Spells p e)
    (hrest : rest.Closes) : Expr.read (b ++ (p ++ rest)) = (.ok e, rest) := by
  cases h with
  | @plain p q term offset hterm hoffset =>
    -- no form starts at the term or behind it, so the term is read as it stands
    obtain ⟨c, more, rfl, _, hmore⟩ := hterm.head
    have hsign : Unsigned rest := by
      intro d hd
      rcases hrest d hd with rfl | rfl | rfl <;> decide
    have hselector : readSelector (c :: more ++ (q ++ rest))
        = (.ok .plain, c :: more ++ (q ++ rest)) :=
      readSelector_plain (forall_head_append hmore (hoffset.not_opens hrest))
    have hbegins := hterm.begins.append (q ++ rest)
    rw [List.append_assoc]
    refine read_eq_ok.mpr ⟨q ++ rest, readHead_eq_ok.mpr ⟨c :: more ++ (q ++ rest), ?_, ?_⟩,
      readTail_eq_ok.mpr ⟨rest, readOffset_of_spells hoffset hrest.stops hsign, rfl⟩⟩
    · rw [hbegins.skipSpaces_append hb, hselector]
    · rw [hbegins.skipSpaces_eq]
      exact Term.read_of_spells hterm (hoffset.stops hrest.stops)
  | @form o b₁ p q b₂ selector term offset hopen hbefore hterm hoffset hafter =>
    -- inside a form, only a blank or the closing bracket stands behind the offset
    have hclose : Text.Stops (b₂ ++ ')' :: rest) :=
      hafter.stops (Text.stops_of_mark (by decide) (by decide) rest)
    have hsign : Unsigned (b₂ ++ ')' :: rest) := by
      refine forall_head_append (fun d hd => ?_) fun d hd => ?_
      · have hspace := hafter d (List.mem_of_mem_head? hd)
        constructor <;> rintro rfl <;> exact absurd hspace (by decide)
      · obtain rfl := Option.some.inj hd
        decide
    have hassoc : o ++ b₁ ++ p ++ q ++ b₂ ++ [')'] ++ rest
        = o ++ (b₁ ++ (p ++ (q ++ (b₂ ++ ')' :: rest)))) := by
      simp only [List.append_assoc, List.singleton_append]
    rw [hassoc]
    refine read_eq_ok.mpr ⟨q ++ (b₂ ++ ')' :: rest),
      readHead_eq_ok.mpr ⟨b₁ ++ (p ++ (q ++ (b₂ ++ ')' :: rest))), ?_, ?_⟩,
      readTail_eq_ok.mpr ⟨b₂ ++ ')' :: rest, readOffset_of_spells hoffset hclose hsign, ?_⟩⟩
    · -- the form is opened
      rw [(hopen.begins.append _).skipSpaces_append hb]
      exact readSelector_of_opens hopen _
    · -- its term and offset are read up to the blanks before the bracket
      rw [(hterm.begins.append _).skipSpaces_append hbefore]
      exact Term.read_of_spells hterm (hoffset.stops hclose)
    · -- and the bracket closes it
      rw [if_neg hopen.ne_plain, Text.skipSpaces_append hafter]
      rfl

/-- **An expression that is read was spelled**, behind blanks. -/
theorem spells_of_read {t rest : Text} {e : Expr} (h : Expr.read t = (.ok e, rest)) :
    ∃ b p, b.Blanks ∧ t = b ++ (p ++ rest) ∧ Spells p e := by
  obtain ⟨selector, term, offset⟩ := e
  obtain ⟨afterTerm, hhead, htail⟩ := read_eq_ok.mp h
  obtain ⟨inside, hselector, hterm⟩ := readHead_eq_ok.mp hhead
  obtain ⟨afterOffset, hoffset, hclose⟩ := readTail_eq_ok.mp htail
  obtain ⟨b, hb, ht⟩ := Text.exists_blanks t
  obtain ⟨p, hp, hpterm⟩ := Term.spells_of_read hterm
  obtain ⟨q, rfl, hqoffset⟩ := spells_of_readOffset hoffset
  -- the texts taken by the readers, put together in their order, are the spelling
  rcases opens_of_readSelector hselector with ⟨rfl, rfl⟩ | ⟨o, ho, hopen⟩
  · rw [if_pos rfl] at hclose
    subst hclose
    -- blanks are skipped before a form and again inside it, and here there is none
    rw [Text.skipSpaces_skipSpaces] at hp
    refine ⟨b, p ++ q, hb, ?_, .plain hpterm hqoffset⟩
    rw [List.append_assoc, ← hp]
    exact ht
  · rw [if_neg hopen.ne_plain] at hclose
    obtain ⟨b₁, hb₁, hinside⟩ := Text.exists_blanks inside
    obtain ⟨b₂, hb₂, hafter⟩ := Text.exists_blanks afterOffset
    refine ⟨b, o ++ b₁ ++ p ++ q ++ b₂ ++ [')'], hb, ?_, .form hopen hb₁ hpterm hqoffset hb₂⟩
    rw [hclose] at hafter
    rw [hp] at hinside
    rw [ho] at ht
    rw [ht, hinside, hafter]
    simp only [List.append_assoc, List.singleton_append]

end Expr

end Cosmac
