import Cosmac.Text.Blank
import Cosmac.Token.Scan

/-!
# Expressions

An expression is a term, optionally with a constant added or subtracted, and optionally wrapped in
one of the forms `A( )`, `A.0( )`, `A.1( )` that select an address or one of its bytes.  This
module reads expressions and register operands from text.  What they stand for depends on the
symbols and is left to `Cosmac.Expr.Eval`.

A reader returns what it read, or what is wrong, together with the text behind the last character
that it used.  It takes its tokens with a scanner, `Token.next` if nothing else is said.
-/

namespace Cosmac

/-- The smallest part of an expression. -/
inductive Term where
  /-- The location counter, written `*`. -/
  | here
  /-- A constant. -/
  | constant (value : Nat)
  /-- A string, which stands for the byte of its first character. -/
  | character (byte : Nat)
  /-- A name. -/
  | name (name : Text)
  deriving DecidableEq, Repr

/-- The form around a term. -/
inductive Selector where
  /-- No form. -/
  | plain
  /-- The address, `A( )`. -/
  | address
  /-- The low byte, `A.0( )`. -/
  | low
  /-- The high byte, `A.1( )`. -/
  | high
  deriving DecidableEq, Repr

/-- An expression. -/
structure Expr where
  /-- The form around the term. -/
  selector : Selector
  /-- The term. -/
  term : Term
  /-- What is added to the term, if anything. -/
  offset : Option Int
  deriving DecidableEq, Repr

/-- A register or device operand. -/
inductive RegisterTerm where
  /-- A constant, or the byte of a string. -/
  | value (value : Nat)
  /-- A name. -/
  | name (name : Text)
  deriving DecidableEq, Repr

/-- Where reading broke off: what is wrong, and the term that had been read before. -/
structure Break where
  /-- The term read before, if there was one. -/
  term : Option Term
  /-- What is wrong. -/
  kind : Kind
  deriving DecidableEq, Repr

/-! ### Terms -/

/-- Reads a term. -/
def Term.read (t : Text) (scan : Token.Scanner := Token.next) : Except Kind Term × Text :=
  match t with
  | '*' :: rest => (.ok .here, rest)
  | _ =>
    match scan t with
    | (.empty, rest) => (.error .missingExpression, rest)
    | (.malformed kind _, rest) => (.error kind, rest)
    | (.string s, rest) => (.ok (.character (Token.firstByte s)), rest)
    | (.binary digits, rest) => (.ok (.constant (Token.number 2 digits)), rest)
    | (.decimal digits, rest) => (.ok (.constant (Token.number 10 digits)), rest)
    | (.hex digits, rest) => (.ok (.constant (Token.number 16 digits)), rest)
    | (.word w, rest) => (.ok (.name w), rest)

/-- Reads a register or device operand. -/
def RegisterTerm.read (t : Text) (scan : Token.Scanner := Token.next) :
    Except Kind RegisterTerm × Text :=
  match scan (Text.skipSpaces t) with
  | (.empty, rest) => (.error .missingExpression, rest)
  | (.malformed kind _, rest) => (.error kind, rest)
  | (.string s, rest) => (.ok (.value (Token.firstByte s)), rest)
  | (.binary digits, rest) => (.ok (.value (Token.number 2 digits)), rest)
  | (.decimal digits, rest) => (.ok (.value (Token.number 10 digits)), rest)
  | (.hex digits, rest) => (.ok (.value (Token.number 16 digits)), rest)
  | (.word w, rest) => (.ok (.name w), rest)

namespace Expr

/-! ### Parts of an expression -/

/-- Reads the start of a form.  Where none starts, nothing is read. -/
def readSelector (t : Text) : Except Kind Selector × Text :=
  match t with
  | a :: '(' :: inside => if a.toUpper = 'A' then (.ok .address, inside) else (.ok .plain, t)
  | a :: '.' :: rest =>
    if a.toUpper = 'A' then
      match rest with
      | '0' :: '(' :: inside => (.ok .low, inside)
      | '1' :: '(' :: inside => (.ok .high, inside)
      | '0' :: behind => (.error .malformed, behind)
      | '1' :: behind => (.error .malformed, behind)
      | _ => (.error .strayPeriod, rest)
    else (.ok .plain, t)
  | _ => (.ok .plain, t)

/-- Reads the constant behind a sign. -/
def readConstant (t : Text) (scan : Token.Scanner := Token.next) : Except Kind Nat × Text :=
  match scan t with
  | (.malformed kind _, rest) =>
    -- a word that is no name is no constant either
    (.error (if kind = .malformed then .missingConstant else kind), rest)
  | (.binary digits, rest) => (.ok (Token.number 2 digits), rest)
  | (.decimal digits, rest) => (.ok (Token.number 10 digits), rest)
  | (.hex digits, rest) => (.ok (Token.number 16 digits), rest)
  | (_, rest) => (.error .missingConstant, rest)

/-- Reads a signed constant, if there is a sign. -/
def readOffset (t : Text) (scan : Token.Scanner := Token.next) :
    Except Kind (Option Int) × Text :=
  match t with
  | '+' :: rest =>
    match readConstant rest scan with
    | (.ok n, rest) => (.ok (some n), rest)
    | (.error kind, rest) => (.error kind, rest)
  | '-' :: rest =>
    match readConstant rest scan with
    | (.ok n, rest) => (.ok (some (-n)), rest)
    | (.error kind, rest) => (.error kind, rest)
  | _ => (.ok none, t)

/-- Reads the start of a form, if there is one, and a term. -/
def readHead (t : Text) (scan : Token.Scanner := Token.next) :
    Except Kind (Selector × Term) × Text :=
  match readSelector (Text.skipSpaces t) with
  | (.error kind, rest) => (.error kind, rest)
  | (.ok selector, rest) =>
    match Term.read (Text.skipSpaces rest) scan with
    | (.error kind, rest) => (.error kind, rest)
    | (.ok term, rest) => (.ok (selector, term), rest)

/-- Reads what may follow the term: an offset, and the end of the form. -/
def readTail (selector : Selector) (t : Text) (scan : Token.Scanner := Token.next) :
    Except Kind (Option Int) × Text :=
  match readOffset t scan with
  | (.error kind, rest) => (.error kind, rest)
  | (.ok offset, rest) =>
    if selector = .plain then (.ok offset, rest)
    else
      match Text.skipSpaces rest with
      | ')' :: behind => (.ok offset, behind)
      | rest => (.error .missingParenthesis, rest)

/-- Reads an expression. -/
def read (t : Text) (scan : Token.Scanner := Token.next) : Except Break Expr × Text :=
  match readHead t scan with
  | (.error kind, rest) => (.error ⟨none, kind⟩, rest)
  | (.ok (selector, term), rest) =>
    match readTail selector rest scan with
    | (.error kind, rest) => (.error ⟨some term, kind⟩, rest)
    | (.ok offset, rest) => (.ok ⟨selector, term, offset⟩, rest)

/-! ### Readers only go forward -/

theorem length_readTerm_le (t : Text) : (Term.read t).2.length ≤ t.length := by
  have h := Token.length_next_le t
  unfold Term.read
  split
  · simp
  · split <;> simp_all

theorem length_readSelector_le (t : Text) : (readSelector t).2.length ≤ t.length := by
  unfold readSelector
  split
  · split <;> simp
    omega
  · split
    · split <;> simp <;> omega
    · simp
  · simp

theorem length_readConstant_le (t : Text) : (readConstant t).2.length ≤ t.length := by
  have h := Token.length_next_le t
  unfold readConstant
  split <;> simp_all

theorem length_readOffset_le (t : Text) : (readOffset t).2.length ≤ t.length := by
  unfold readOffset
  split
  next rest =>
    have h := length_readConstant_le rest
    split <;> simp_all <;> omega
  next rest =>
    have h := length_readConstant_le rest
    split <;> simp_all <;> omega
  next => exact Nat.le_refl _

theorem length_readHead_le (t : Text) : (readHead t).2.length ≤ t.length := by
  have hskip := Text.length_skipSpaces_le t
  have hselector := length_readSelector_le (Text.skipSpaces t)
  unfold readHead
  split
  next rest heq => simp_all; omega
  next selector rest heq =>
    have hskip' := Text.length_skipSpaces_le rest
    have hterm := length_readTerm_le (Text.skipSpaces rest)
    split <;> simp_all <;> omega

theorem length_readTail_le (selector : Selector) (t : Text) :
    (readTail selector t).2.length ≤ t.length := by
  have hoffset := length_readOffset_le t
  unfold readTail
  split
  next kind rest heq => simp_all
  next offset rest heq =>
    have hskip := Text.length_skipSpaces_le rest
    split
    · simp_all
    · split <;> simp_all <;> omega

theorem length_read_le (t : Text) : (read t).2.length ≤ t.length := by
  have hhead := length_readHead_le t
  unfold read
  split
  next kind rest heq => simp_all
  next selector term rest heq =>
    have htail := length_readTail_le selector rest
    split <;> simp_all <;> omega

end Expr

end Cosmac
