import Cosmac.Token.Basic
import Cosmac.Text.Alphanumeric

/-!
# Scanning tokens

`Token.next` takes the token at the start of a text and leaves the rest.  A word runs up to the
first character that is neither alphanumeric nor `#`.  A quoted part runs up to its closing quote,
and a doubled quote inside stands for one quote.  Blanks are never skipped: where they may stand
is up to the reader of the statement.

Main statement: `length_next_lt`, a token that is not empty takes at least one character.
-/

namespace Cosmac.Token

/-- The character can stand in a word. -/
def isWordChar (c : Char) : Bool := Text.isAlphanumeric c || c == '#'

/-- What stands behind an opening quote. -/
structure QuotedSpan where
  /-- The characters up to the closing quote, doubled quotes made single. -/
  body : Text
  /-- There is a closing quote. -/
  closed : Bool
  /-- What follows the closing quote. -/
  rest : Text
  deriving DecidableEq, Repr

/-- Adds a character at the front of the body. -/
def QuotedSpan.cons (c : Char) (span : QuotedSpan) : QuotedSpan :=
  { span with body := c :: span.body }

/-- The quoted span whose opening quote stands just before the text. -/
def quotedSpan : Text → QuotedSpan
  | [] => ⟨[], false, []⟩
  | '\'' :: '\'' :: rest => (quotedSpan rest).cons '\''
  | '\'' :: rest => ⟨[], true, rest⟩
  | c :: rest => (quotedSpan rest).cons c

/-- A string literal is not empty. -/
def ofString (body : Text) : Token :=
  if body.isEmpty then .malformed .missingQuote body else .string body

/-- The literal with this word before its quoted span: `B`, `D` and `X` mark digits of the bases
two, ten and sixteen, `T` a string. -/
def ofLiteral (mark : Text) (span : QuotedSpan) : Token :=
  let digits := Text.upper span.body
  match mark with
  | ['B'] => if span.closed then ofBinary digits else .malformed .missingQuote span.body
  | ['D'] => if span.closed then ofDecimal digits else .malformed .missingQuote span.body
  | ['T'] => if span.closed then ofString digits else .malformed .missingQuote span.body
  | ['X'] => if span.closed then ofHex digits else .malformed .missingQuote span.body
  | _ => .malformed .malformed mark

/-- The token that starts with a letter, behind which `rest` follows. -/
def nextNamed (word rest : Text) : Token × Text :=
  match rest with
  | '\'' :: inside => (ofLiteral word (quotedSpan inside), (quotedSpan inside).rest)
  | _ => (ofWord word, rest)

/-- The token of a word, behind which `rest` follows; there is none without a word. -/
def nextWord (word rest : Text) : Token × Text :=
  match word with
  | [] => (.empty, rest)
  | c :: _ =>
    if c.isAlpha then nextNamed (Text.upper word) rest else (ofDecimal (Text.upper word), rest)

/-- The token at the start of the text, and what follows it. -/
def next (t : Text) : Token × Text :=
  match t with
  | [] => (.empty, [])
  | '\'' :: inside =>
    let span := quotedSpan inside
    -- no literal starts with a quote: it is read as a bad number
    (.malformed (if span.closed then .invalidDecimal else .missingQuote) span.body, span.rest)
  | '#' :: digits =>
    (ofHex (Text.upper (digits.takeWhile isWordChar)), digits.dropWhile isWordChar)
  | _ => nextWord (t.takeWhile isWordChar) (t.dropWhile isWordChar)

/-- A way to take the token at the start of a text: the token, and what follows it. -/
abbrev Scanner := Text → Token × Text

/-! ### Progress -/

theorem length_quotedSpan_le (t : Text) : (quotedSpan t).rest.length ≤ t.length := by
  fun_induction quotedSpan t with
  | case1 => simp
  | case2 rest ih => simp only [QuotedSpan.cons, List.length_cons]; omega
  | case3 rest => simp
  | case4 c rest _ _ ih => simp only [QuotedSpan.cons, List.length_cons]; omega

theorem length_nextNamed_le (word rest : Text) : (nextNamed word rest).2.length ≤ rest.length := by
  unfold nextNamed
  split
  next inside =>
    have := length_quotedSpan_le inside
    simp only [List.length_cons]; omega
  next => exact Nat.le_refl _

theorem length_nextWord_le (word rest : Text) : (nextWord word rest).2.length ≤ rest.length := by
  unfold nextWord
  split
  next => exact Nat.le_refl _
  next =>
    split
    · exact length_nextNamed_le _ _
    · exact Nat.le_refl _

theorem length_next_le (t : Text) : (next t).2.length ≤ t.length := by
  unfold next
  split
  next => simp
  next inside =>
    have := length_quotedSpan_le inside
    simp only [List.length_cons]; omega
  next digits =>
    have := (List.dropWhile_sublist (l := digits) isWordChar).length_le
    simp only [List.length_cons]; omega
  next =>
    exact Nat.le_trans (length_nextWord_le _ _) (List.dropWhile_sublist isWordChar).length_le

/-- **A token takes at least one character** unless it is empty. -/
theorem length_next_lt (t : Text) (h : (next t).1 ≠ .empty) : (next t).2.length < t.length := by
  revert h
  unfold next
  split
  next => simp
  next inside =>
    have := length_quotedSpan_le inside
    intro _; simp only [List.length_cons]; omega
  next digits =>
    have := (List.dropWhile_sublist (l := digits) isWordChar).length_le
    intro _; simp only [List.length_cons]; omega
  next hnil _ _ =>
    cases t with
    | nil => exact absurd rfl hnil
    | cons c rest =>
      by_cases hword : isWordChar c = true
      · -- the first character belongs to the word
        intro _
        have hdrop : (c :: rest).dropWhile isWordChar = rest.dropWhile isWordChar := by
          simp [List.dropWhile, hword]
        have := length_nextWord_le ((c :: rest).takeWhile isWordChar) (rest.dropWhile isWordChar)
        have := (List.dropWhile_sublist (l := rest) isWordChar).length_le
        rw [hdrop]
        simp only [List.length_cons]
        omega
      · intro h
        refine absurd ?_ h
        simp [List.takeWhile, hword, nextWord]

/-! ### All tokens of a text -/

/-- A token, the character passed over behind an empty one, and the text left. -/
structure Lexeme where
  /-- The token. -/
  token : Token
  /-- The character passed over because no token starts with it. -/
  skipped : Option Char
  /-- The text that follows. -/
  rest : Text
  deriving DecidableEq, Repr

/-- The tokens of a text up to its end; a character that starts none is passed over. -/
def lexemes (t : Text) : List Lexeme :=
  match t with
  | [] => []
  | c :: rest =>
    if (next (c :: rest)).1 = .empty then
      ⟨.empty, some c, rest⟩ :: lexemes rest
    else
      ⟨(next (c :: rest)).1, none, (next (c :: rest)).2⟩ :: lexemes (next (c :: rest)).2
termination_by t.length
decreasing_by
  · simp
  next h => exact length_next_lt _ h

end Cosmac.Token
