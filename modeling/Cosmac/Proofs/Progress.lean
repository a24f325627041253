import Cosmac.Proofs.Conversion
import Cosmac.Proofs.Denotation
import Mathlib.Data.List.Chain
import Mathlib.Data.Nat.Digits.Defs

/-!
# Progress of the scanner

Where a token ends is said without the scanner, by what was taken and what follows it
(`Token.Extent`): nothing, a plain word, a closed quoted part or an open one.  Every text starts
with exactly one of them:

* `Token.exists_extent`: with at least one;
* `Token.rest_of_extent`: the scanner stops where it ends, so there is no other
  (`Token.Extent.behind_eq`).

At a cursor this gives the positions (`Cursor.takes_next`): only the empty token leaves a cursor
where it is, and every other one moves it on, at most to the end of the text.  A loop that takes the
tokens of a text, or a character where there is none, therefore has at most as many turns as there
are characters ahead (`Cursor.length_turns_le`).  The main statement is `Cursor.bounded_progress`.
-/

namespace Cosmac

/-! ### Where a quoted part ends -/

namespace Token

/-- No quote follows a closed quoted part: it would have been doubled. -/
theorem head_rest_quotedSpan (t : Text) (h : (quotedSpan t).closed = true) :
    ∀ c ∈ (quotedSpan t).rest.head?, c ≠ '\'' := by
  fun_induction quotedSpan t with
  | case1 => cases h
  | case2 rest ih => exact ih h
  | case3 rest hrest =>
    rintro c hc rfl
    obtain ⟨more, rfl⟩ := List.head?_eq_some_iff.mp hc
    exact hrest more rfl
  | case4 c rest _ _ ih => exact ih h

/-- A quoted part that is not closed was written with its quotes doubled, up to the end. -/
theorem eq_doubled_of_unclosed (t : Text) (h : (quotedSpan t).closed = false) :
    t = doubled (quotedSpan t).body := by
  fun_induction quotedSpan t with
  | case1 => rfl
  | case2 rest ih => exact congrArg (fun u => '\'' :: '\'' :: u) (ih h)
  | case3 rest => cases h
  | case4 c rest _ hc ih =>
    show c :: rest = doubled (c :: (quotedSpan rest).body)
    rw [doubled_cons hc, ← ih h]

/-! ### Where a token ends -/

/-- What may stand before the opening quote of a token: nothing, or a word that starts with a
letter. -/
def IsLead (lead : Text) : Prop := IsRun lead ∧ ∀ c ∈ lead.head?, c.isAlpha = true

/-- What the token at the start of a text takes, and what it leaves behind. -/
inductive Extent : Text → Text → Prop
  /-- Nothing is taken at the end of the text, and before a character with which no token starts. -/
  | none {behind : Text} (hbehind : behind.Stops) : Extent [] behind
  /-- A token without quotes ends at the end of the text, or before a character that is neither
  alphanumeric nor `#`.  Before a quote it ends only if it does not start with a letter. -/
  | plain {c : Char} {more behind : Text} (hword : IsRun (c :: more))
      (hbehind : ∀ d ∈ behind.head?, Text.isAlphanumeric d = false ∧ d ≠ '#')
      (hquote : c.isAlpha = true → ∀ d ∈ behind.head?, d ≠ '\'') : Extent (c :: more) behind
  /-- A closed quoted token ends just behind a quote that no other quote follows. -/
  | closed {lead body behind : Text} (hlead : IsLead lead)
      (hbehind : ∀ d ∈ behind.head?, d ≠ '\'') :
      Extent (lead ++ '\'' :: (doubled body ++ ['\''])) behind
  /-- A quoted token that is not closed ends at the end of the text. -/
  | unclosed {lead body : Text} (hlead : IsLead lead) : Extent (lead ++ '\'' :: doubled body) []

theorem isWordChar_eq_false {c : Char} :
    isWordChar c = false ↔ Text.isAlphanumeric c = false ∧ c ≠ '#' := by
  rw [isWordChar, Bool.or_eq_false_iff, beq_eq_false_iff_ne]

/-- A quote belongs to the token if only a lead stands before it. -/
theorem rest_next_lead {lead : Text} (h : IsLead lead) (inside : Text) :
    (next (lead ++ '\'' :: inside)).2 = (quotedSpan inside).rest := by
  obtain ⟨hrun, hletter⟩ := h
  cases lead with
  | nil => rfl
  | cons c more =>
    have hc : c.isAlpha = true := hletter c rfl
    have hmark : c ≠ '#' := by
      rintro rfl
      exact absurd hc (by decide)
    rw [next_run hrun hmark (by
      intro d hd
      obtain rfl := Option.some.inj hd
      exact Text.isWordChar_of_mem_marks (by decide))]
    unfold nextWord
    dsimp only
    rw [if_pos hc]
    rfl

/-- **The scanner stops where the token ends.** -/
theorem rest_of_extent {taken behind : Text} (h : Extent taken behind) :
    (next (taken ++ behind)).2 = behind := by
  cases h with
  | none hbehind =>
    cases behind with
    | nil => rfl
    | cons c more =>
      obtain ⟨hword, hquote⟩ := hbehind c rfl
      rw [List.nil_append, next_mark hword hquote]
  | @plain c more _ hword hbehind hquote =>
    have hend : ∀ d ∈ behind.head?, isWordChar d = false :=
      fun d hd => isWordChar_eq_false.mpr (hbehind d hd)
    -- behind `#` the scanner takes a word without looking at what it is
    by_cases hmark : c = '#'
    · subst hmark
      exact dropWhile_run (List.forall_mem_cons.mp hword).2 hend
    · rw [next_run hword hmark hend]
      unfold nextWord
      dsimp only
      split_ifs with hletter
      · rw [nextNamed_stops (hquote hletter)]
      · rfl
  | @closed lead body _ hlead hbehind =>
    have hspan := quotedSpan_doubled body hbehind
    rw [List.append_assoc, List.cons_append, List.append_assoc, List.singleton_append,
      rest_next_lead hlead, hspan]
  | unclosed hlead => rw [List.append_nil, rest_next_lead hlead, quotedSpan_unclosed]

/-- A text has one token at its start. -/
theorem Extent.behind_eq {taken behind taken' behind' : Text} (h : Extent taken behind)
    (h' : Extent taken' behind') (heq : taken ++ behind = taken' ++ behind') :
    behind = behind' := by
  rw [← rest_of_extent h, heq, rest_of_extent h']

/-- A quoted part behind a lead is closed or goes on to the end. -/
theorem exists_extent_lead {lead : Text} (h : IsLead lead) (inside : Text) :
    ∃ taken behind, lead ++ '\'' :: inside = taken ++ behind ∧ Extent taken behind := by
  cases hclosed : (quotedSpan inside).closed with
  | true =>
    refine ⟨lead ++ '\'' :: (doubled (quotedSpan inside).body ++ ['\'']), (quotedSpan inside).rest,
      ?_, .closed h (head_rest_quotedSpan inside hclosed)⟩
    conv_lhs => rw [doubled_quotedSpan inside hclosed]
    simp
  | false =>
    refine ⟨lead ++ '\'' :: doubled (quotedSpan inside).body, [], ?_, .unclosed h⟩
    rw [List.append_nil, ← eq_doubled_of_unclosed inside hclosed]

/-- **Every text starts with a token**, the empty one included. -/
theorem exists_extent (t : Text) : ∃ taken behind, t = taken ++ behind ∧ Extent taken behind := by
  have hsplit : t.takeWhile isWordChar ++ t.dropWhile isWordChar = t :=
    List.takeWhile_append_dropWhile
  have hword : IsRun (t.takeWhile isWordChar) := fun _ h => List.mem_takeWhile_imp h
  have hend : ∀ d ∈ (t.dropWhile isWordChar).head?, isWordChar d = false := head_dropWhile
  rw [← hsplit]
  generalize t.takeWhile isWordChar = word at hword ⊢
  generalize t.dropWhile isWordChar = behind at hend ⊢
  -- a word goes on with a quote behind it only if the word is a lead
  by_cases hlead : IsLead word ∧ behind.head? = some '\''
  · obtain ⟨hlead, hhead⟩ := hlead
    obtain ⟨inside, rfl⟩ := List.head?_eq_some_iff.mp hhead
    exact exists_extent_lead hlead inside
  · refine ⟨word, behind, rfl, ?_⟩
    cases word with
    | nil =>
      refine .none fun d hd => ⟨hend d hd, ?_⟩
      rintro rfl
      exact hlead ⟨⟨hword, fun _ h => absurd h (Option.not_mem_none _)⟩, hd⟩
    | cons c more =>
      refine .plain hword (fun d hd => isWordChar_eq_false.mp (hend d hd)) ?_
      rintro hletter d hd rfl
      refine hlead ⟨⟨hword, fun e he => ?_⟩, hd⟩
      obtain rfl := Option.some.inj he
      exact hletter

/-- **Every text is scanned up to the end of its token.** -/
theorem exists_next (t : Text) : ∃ token taken behind,
    t = taken ++ behind ∧ Extent taken behind ∧ next (taken ++ behind) = (token, behind) := by
  obtain ⟨taken, behind, hsplit, hextent⟩ := exists_extent t
  exact ⟨_, taken, behind, hsplit, hextent, Prod.ext rfl (rest_of_extent hextent)⟩

theorem suffix_next (t : Text) : (next t).2 <:+ t := by
  obtain ⟨token, taken, behind, rfl, -, hnext⟩ := exists_next t
  rw [hnext]
  exact List.suffix_append taken behind

/-! ### The empty token -/

theorem ite_ne_empty {p : Prop} [Decidable p] {a b : Token} (ha : a ≠ .empty) (hb : b ≠ .empty) :
    (if p then a else b) ≠ .empty := by
  split_ifs
  · exact ha
  · exact hb

theorem ofLiteral_ne_empty (mark : Text) (span : QuotedSpan) : ofLiteral mark span ≠ .empty := by
  unfold ofLiteral
  dsimp only
  split
  · exact ite_ne_empty (ite_ne_empty nofun nofun) nofun
  · exact ite_ne_empty (ite_ne_empty nofun nofun) nofun
  · exact ite_ne_empty (ite_ne_empty nofun nofun) nofun
  · exact ite_ne_empty (ite_ne_empty nofun nofun) nofun
  · exact nofun

theorem nextWord_ne_empty (c : Char) (more rest : Text) :
    (nextWord (c :: more) rest).1 ≠ .empty := by
  unfold nextWord
  dsimp only
  split_ifs
  · unfold nextNamed
    split
    · exact ofLiteral_ne_empty _ _
    · exact ite_ne_empty nofun nofun
  · exact ite_ne_empty nofun nofun

/-- The empty token takes nothing. -/
theorem rest_of_empty {t : Text} (h : (next t).1 = .empty) : (next t).2 = t := by
  unfold next at h ⊢
  split at h
  · rfl
  · cases h
  · exact absurd h (ite_ne_empty nofun nofun)
  · cases hword : t.takeWhile isWordChar with
    | nil =>
      have hsplit : t.takeWhile isWordChar ++ t.dropWhile isWordChar = t :=
        List.takeWhile_append_dropWhile
      rwa [hword] at hsplit
    | cons c more =>
      rw [hword] at h
      exact absurd h (nextWord_ne_empty _ _ _)

/-- **Only the empty token takes nothing.** -/
theorem empty_iff_of_next {taken behind : Text} {token : Token}
    (h : next (taken ++ behind) = (token, behind)) : token = .empty ↔ taken = [] := by
  constructor
  · rintro rfl
    have hrest : (next (taken ++ behind)).2 = taken ++ behind := rest_of_empty (by rw [h])
    rw [h] at hrest
    exact List.append_left_eq_self.mp hrest.symm
  · rintro rfl
    by_contra hempty
    -- a token that is not empty leaves less than the text
    have hlt : (next ([] ++ behind)).2.length < behind.length :=
      length_next_lt _ (by rwa [h])
    rw [h] at hlt
    exact Nat.lt_irrefl _ hlt

/-! ### The value of a constant -/

/-- Digits of a base by their places among `0` to `F`, and the number up to `limit` that they make,
the least significant one last. -/
structure IsPositional (base limit : Nat) (digits : Text) (n : Nat) : Prop where
  mem : ∀ c ∈ digits, c ∈ hexDigits.take base
  eq : n = Nat.ofDigits base (digits.reverse.map hexDigits.idxOf)
  le : n ≤ limit

/-- The token is a constant and stands for the number. -/
def StandsFor : Token → Nat → Prop
  | .binary digits, n => IsPositional 2 0xFF digits n
  | .decimal digits, n => IsPositional 10 0xFFFF digits n
  | .hex digits, n => IsPositional 16 0xFFFF digits n
  | .empty, _ | .malformed _ _, _ | .string _, _ | .word _, _ => False

theorem digitValue_eq_idxOf {c : Char} (h : c ∈ hexDigits) : digitValue c = hexDigits.idxOf c := by
  have hall : (hexDigits.all fun c => digitValue c == hexDigits.idxOf c) = true := by decide
  exact beq_iff_eq.mp (List.all_eq_true.mp hall c h)

theorem IsNumber.isPositional {base limit : Nat} {digits : Text} (h : IsNumber base digits)
    (hle : number base digits ≤ limit) : IsPositional base limit digits (number base digits) where
  mem c hc := by
    obtain ⟨hmem, hlt⟩ := h.digits_mem c hc
    rw [digitValue_eq_idxOf hmem] at hlt
    have hall : hexDigits.idxOf c < hexDigits.length := List.idxOf_lt_length_iff.mpr hmem
    refine List.mem_take_iff_getElem.mpr ⟨hexDigits.idxOf c, Nat.lt_min.mpr ⟨hlt, hall⟩, ?_⟩
    exact List.getElem_idxOf hall
  eq := by
    have hvalues : digits.reverse.map hexDigits.idxOf = (digits.map digitValue).reverse := by
      rw [← List.map_reverse]
      refine List.map_congr_left fun c hc => ?_
      exact (digitValue_eq_idxOf (h.digits_mem c (List.mem_reverse.mp hc)).1).symm
    rw [hvalues, Nat.ofDigits_eq_foldr, List.foldr_reverse, List.foldl_map, number]
    simp only [Nat.cast_id, Nat.add_comm]
  le := hle

/-- **A constant stands for its value.** -/
theorem exists_standsFor {token : Token} (htidy : token.Tidy) (h : token.isConstant = true) :
    ∃ n, token.value? = some n ∧ token.StandsFor n := by
  cases token with
  | binary digits =>
    have hdigits : IsBinary digits := htidy
    exact ⟨_, rfl, hdigits.isNumber.isPositional (Nat.le_of_lt_succ hdigits.number_lt)⟩
  | decimal digits =>
    obtain ⟨hpos, hlength, hdigits, hle⟩ := htidy
    exact ⟨_, rfl, (isNumber_of_all_isDigit hpos hlength hdigits).isPositional hle⟩
  | hex digits =>
    have hdigits : IsHex digits := htidy
    exact ⟨_, rfl, hdigits.isNumber.isPositional (Nat.le_of_lt_succ hdigits.number_lt)⟩
  | empty | malformed _ _ | string _ | word _ => cases h

/-- A constant is spelled by what it took. -/
theorem spells_of_isConstant {taken behind : Text} {token : Token}
    (h : next (taken ++ behind) = (token, behind)) (hconstant : token.isConstant = true) :
    Spells taken token := by
  have hwell : token ≠ .empty ∧ token.error? = none := by
    cases token <;> simp_all [isConstant, error?]
  obtain ⟨written, hsplit, hspells, -⟩ := spells_of_next h hwell.1 hwell.2
  rwa [List.append_cancel_right hsplit]

end Token

/-! ### Positions -/

namespace Cursor

/-- A token was taken at position `p` of the text, up to position `q`. -/
structure Takes (text : Text) (p : Nat) (token : Token) (q : Nat) : Prop where
  /-- Only the empty token leaves the position as it is. -/
  empty_iff : token = .empty ↔ q = p
  /-- Every other token moves it on, within the text. -/
  moves : token ≠ .empty → p < q ∧ q ≤ text.length
  /-- The position is where the token ends. -/
  ends : Token.Extent (text.extract p q) (text.drop q)
  /-- It ends nowhere else. -/
  unique : ∀ q', p ≤ q' → q' ≤ text.length →
    Token.Extent (text.extract p q') (text.drop q') → q' = q
  /-- A constant is spelled by what was taken. -/
  spelled : token.isConstant = true → Token.Spells (text.extract p q) token
  /-- A constant has a value, which it stands for. -/
  valued : token.isConstant = true → ∃ n, token.value? = some n ∧ token.StandsFor n

theorem takes_append (front : Text) {taken behind : Text} {token : Token}
    (h : Token.Extent taken behind) (hnext : Token.next (taken ++ behind) = (token, behind)) :
    Takes (front ++ (taken ++ behind)) front.length token (front ++ taken).length := by
  have hempty := Token.empty_iff_of_next hnext
  have htidy := Token.tidy_next (taken ++ behind)
  rw [hnext] at htidy
  have htaken :
      (front ++ (taken ++ behind)).extract front.length (front ++ taken).length = taken := by
    simp
  have hbehind : (front ++ (taken ++ behind)).drop (front ++ taken).length = behind := by
    rw [← List.append_assoc, List.drop_left]
  refine ⟨hempty.trans ?_, fun hne => ⟨?_, ?_⟩, ?_, fun q hp hq hextent => ?_, fun hconstant => ?_,
    Token.exists_standsFor htidy⟩
  · rw [List.length_append, ← List.length_eq_zero_iff]
    omega
  · have hpos := List.length_pos_iff.mpr fun hnil => hne (hempty.mpr hnil)
    rw [List.length_append]
    omega
  · simp only [List.length_append]
    omega
  · rwa [htaken, hbehind]
  · -- what lies ahead would have a second token at its start
    obtain ⟨k, rfl⟩ := Nat.exists_eq_add_of_le hp
    rw [List.extract_eq_take_drop, Nat.add_sub_cancel_left, ← List.drop_drop,
      List.drop_left] at hextent
    have hlength := congrArg List.length (h.behind_eq hextent (List.take_append_drop ..).symm)
    simp only [List.length_drop, List.length_append] at hlength hq ⊢
    omega
  · rw [htaken]
    exact Token.spells_of_isConstant hnext hconstant

/-- **At every position of a text a token is taken.** -/
theorem takes_next {text : Text} {p : Nat} (hp : p ≤ text.length) :
    ∃ (token : Token) (q : Nat), next ⟨text, p⟩ = (token, ⟨text, q⟩) ∧ Takes text p token q := by
  obtain ⟨front, ahead, rfl, rfl⟩ : ∃ front ahead, text = front ++ ahead ∧ p = front.length :=
    ⟨text.take p, text.drop p, (List.take_append_drop p text).symm,
      (List.length_take_of_le hp).symm⟩
  obtain ⟨token, taken, behind, rfl, hextent, hnext⟩ := Token.exists_next ahead
  exact ⟨token, _, next_mk front hnext, takes_append front hextent hnext⟩

/-! ### Loops -/

/-- The cursor behind the next token, or behind the next character where there is none. -/
def pass (c : Cursor) : Cursor := if c.next.1 = .empty then c.advance.2 else c.next.2

/-- One turn of a loop over tokens.  With something left, the cursor may move ahead, over blanks for
instance, before the next token is passed, and again behind it. -/
structure Turn (c c' : Cursor) : Prop where
  more : c.atEnd = false
  moves : ∃ ahead further : Nat, c' = (c.skip ahead).pass.skip further

variable {text : Text} {p : Nat}

@[simp] theorem skip_mk (k : Nat) : skip ⟨text, p⟩ k = ⟨text, (p + k : Nat)⟩ := by
  rw [skip, Nat.cast_add]

theorem atEnd_eq_false_iff : atEnd ⟨text, p⟩ = false ↔ p < text.length := by
  rw [atEnd, decide_eq_false_iff_not, Int.not_le]
  exact Nat.cast_lt

/-- Behind the end there is nothing to pass. -/
theorem pass_of_le (h : text.length ≤ p) : pass ⟨text, p⟩ = ⟨text, p⟩ := by
  have hend : atEnd ⟨text, p⟩ = true := decide_eq_true (Nat.cast_le.mpr h)
  have hrest : rest ⟨text, p⟩ = [] := by
    unfold rest placeOf
    dsimp only
    rw [if_neg (by omega), if_neg (by omega), Int.toNat_natCast, List.drop_eq_nil_of_le h]
  have hempty : (next ⟨text, p⟩).1 = .empty := by
    unfold next
    rw [hrest]
    rfl
  rw [pass, if_pos hempty, advance, if_pos hend]

theorem pass_eq (h : p < text.length) {token : Token} {q : Nat}
    (hnext : next ⟨text, p⟩ = (token, ⟨text, q⟩)) :
    pass ⟨text, p⟩ = ⟨text, (if token = .empty then p + 1 else q : Nat)⟩ := by
  unfold pass
  rw [hnext]
  split_ifs
  · rw [advance, atEnd_eq_false_iff.mpr h]
    exact skip_mk 1
  · rfl

theorem exists_pass (h : p < text.length) : ∃ q : Nat, pass ⟨text, p⟩ = ⟨text, q⟩ ∧ p < q := by
  obtain ⟨token, q, hnext, htakes⟩ := takes_next (Nat.le_of_lt h)
  refine ⟨_, pass_eq h hnext, ?_⟩
  split_ifs with hempty
  · exact Nat.lt_succ_self p
  · exact (htakes.moves hempty).1

/-- **A turn moves the cursor on.** -/
theorem Turn.exists_lt {c : Cursor} (h : Turn ⟨text, p⟩ c) :
    p < text.length ∧ ∃ q : Nat, c = ⟨text, q⟩ ∧ p < q := by
  have hp : p < text.length := atEnd_eq_false_iff.mp h.more
  obtain ⟨ahead, further, rfl⟩ := h.moves
  refine ⟨hp, ?_⟩
  rw [skip_mk]
  -- a cursor that has moved to the end before the token has made its progress already
  by_cases hend : p + ahead < text.length
  · obtain ⟨q, hpass, hlt⟩ := exists_pass hend
    exact ⟨q + further, by rw [hpass, skip_mk], by omega⟩
  · exact ⟨p + ahead + further, by rw [pass_of_le (by omega), skip_mk], by omega⟩

/-- **A loop has at most as many turns as there are characters ahead.** -/
theorem length_turns_le {cs : List Cursor} (h : List.IsChain Turn (⟨text, p⟩ :: cs)) :
    cs.length ≤ text.length - p := by
  induction cs generalizing p with
  | nil => exact Nat.zero_le _
  | cons c cs ih =>
    obtain ⟨hturn, hchain⟩ := List.isChain_cons_cons.mp h
    obtain ⟨hp, q, rfl, hlt⟩ := hturn.exists_lt
    have hlength := ih hchain
    rw [List.length_cons]
    omega

/-! ### The loop over all tokens -/

/-- The cursor with this much of the text ahead. -/
def before (text ahead : Text) : Cursor := ⟨text, (text.length - ahead.length : Nat)⟩

@[simp] theorem before_append (front ahead : Text) :
    before (front ++ ahead) ahead = ⟨front ++ ahead, front.length⟩ := by
  rw [before, List.length_append, Nat.add_sub_cancel]

theorem turn_before {c : Char} {ahead : Text} (h : (c :: ahead) <:+ text) :
    Turn (before text (c :: ahead))
      (before text (if (Token.next (c :: ahead)).1 = .empty then ahead
        else (Token.next (c :: ahead)).2)) := by
  obtain ⟨front, rfl⟩ := h
  obtain ⟨token, taken, behind, hsplit, -, hnext⟩ := Token.exists_next (c :: ahead)
  have hcursor := next_mk front hnext
  rw [← hsplit] at hnext hcursor
  have hlt : front.length < (front ++ c :: ahead).length := by simp
  rw [before_append, hnext]
  refine ⟨atEnd_eq_false_iff.mpr hlt, 0, 0, ?_⟩
  rw [skip_mk, Nat.add_zero, pass_eq hlt hcursor, skip_mk, Nat.add_zero]
  dsimp only
  split_ifs
  · rw [List.append_cons, before_append, List.length_append]
    rfl
  · rw [hsplit, ← List.append_assoc, before_append]

theorem isChain_lexemes {ahead : Text} (h : ahead <:+ text) :
    List.IsChain Turn
      (before text ahead :: (Token.lexemes ahead).map fun x => before text x.rest) := by
  fun_induction Token.lexemes ahead with
  | case1 => exact .singleton _
  | case2 c ahead hempty ih =>
    have hturn := turn_before h
    rw [if_pos hempty] at hturn
    exact .cons_cons hturn (ih ((List.suffix_cons ..).trans h))
  | case3 c ahead hempty ih =>
    have hturn := turn_before h
    rw [if_neg hempty] at hturn
    exact .cons_cons hturn (ih ((Token.suffix_next _).trans h))

theorem getLast?_lexemes (ahead : Text) :
    (before text ahead :: (Token.lexemes ahead).map fun x => before text x.rest).getLast?
      = some ⟨text, text.length⟩ := by
  fun_induction Token.lexemes ahead with
  | case1 => rfl
  | case2 c ahead hempty ih => exact ih
  | case3 c ahead hempty ih => exact ih

/-- **The scanner makes progress, and so do loops over it.**  At every position of a text the next
token is taken up to its end.  A loop that passes tokens, and a character where there is none, has
at most as many turns as there are characters ahead, and the one that lists all tokens of the text
is such a loop, up to the end. -/
theorem bounded_progress (text : Text) (p : Nat) (hp : p ≤ text.length) :
    (∃ (token : Token) (q : Nat), next ⟨text, p⟩ = (token, ⟨text, q⟩) ∧ Takes text p token q) ∧
      (∀ cs, List.IsChain Turn (⟨text, p⟩ :: cs) → cs.length ≤ text.length - p) ∧
      ∃ cs, cs = (Token.lexemes (text.drop p)).map (fun x => before text x.rest) ∧
        List.IsChain Turn (⟨text, p⟩ :: cs) ∧
        (⟨text, p⟩ :: cs).getLast? = some ⟨text, text.length⟩ := by
  have hstart : before text (text.drop p) = ⟨text, p⟩ := by
    rw [before, List.length_drop, Nat.sub_sub_self hp]
  refine ⟨takes_next hp, fun _ => length_turns_le, _, rfl, ?_, ?_⟩
  · rw [← hstart]
    exact isChain_lexemes (List.drop_suffix p text)
  · rw [← hstart]
    exact getLast?_lexemes _

/-- Upper case makes two digits of the ligature.  Behind the constant stand a blank, a semicolon and
a string that is not closed. -/
theorem bounded_progress_ligature :
    let text := "LDI X'fﬀ' ;T'a''".toList
    4 ≤ text.length ∧ next ⟨text, 4⟩ = (.hex "FFF".toList, ⟨text, 9⟩) ∧
      Takes text 4 (.hex "FFF".toList) 9 ∧ (Token.hex "FFF".toList).StandsFor 4095 ∧
      (Token.lexemes (text.drop 4)).length ≤ text.length - 4 := by
  intro text
  have hp : 4 ≤ text.length := by decide
  obtain ⟨⟨token, q, hnext, htakes⟩, hturns, cs, rfl, hchain, -⟩ := bounded_progress text 4 hp
  have hvalue : next ⟨text, (4 : Nat)⟩ = (.hex "FFF".toList, ⟨text, (9 : Nat)⟩) := by decide +kernel
  rw [hvalue] at hnext
  obtain ⟨rfl, hcursor⟩ := Prod.mk.inj hnext
  obtain rfl : 9 = q := Int.ofNat.inj (Cursor.mk.inj hcursor).2
  obtain ⟨n, hn, hstands⟩ := htakes.valued rfl
  obtain rfl : 4095 = n := Option.some.inj hn
  refine ⟨hp, hvalue, htakes, hstands, ?_⟩
  have hlength := hturns _ hchain
  rwa [List.length_map] at hlength

end Cursor

end Cosmac
