import Cosmac.Slice
import Cosmac.Text.Blank
import Cosmac.Token.Scan

/-!
# Cursors

A position in a text from which characters and tokens are taken.  The position counts characters
and may lie behind the end, where there is nothing to take.  A position below zero counts from the
end; from there reading goes on, past the end, at the start of the text.
-/

namespace Cosmac

/-- A position in a text. -/
structure Cursor where
  /-- The whole text. -/
  text : Text
  /-- The position of the next character. -/
  position : Int := 0
  deriving DecidableEq, Repr

namespace Cursor

/-- The text that lies ahead. -/
def rest (c : Cursor) : Text :=
  let ahead := c.text.drop (placeOf c.text.length c.position).toNat
  if c.position < 0 then ahead ++ c.text else ahead

/-- Nothing is left. -/
def atEnd (c : Cursor) : Bool := decide ((c.text.length : Int) ≤ c.position)

/-- The cursor some characters further. -/
def skip (c : Cursor) (count : Nat) : Cursor := { c with position := c.position + count }

/-- The cursor at the point where `rest` is left of what lies ahead. -/
def moveTo (c : Cursor) (rest : Text) : Cursor := c.skip (c.rest.length - rest.length)

/-- The place `offset` characters ahead does not lie before the start of the text. -/
def reaches (c : Cursor) (offset : Int) : Bool :=
  decide (0 ≤ placeOf c.text.length (c.position + offset))

/-- The character `offset` places ahead, nothing behind the end. -/
def peek (c : Cursor) (offset : Int) : Text :=
  if c.reaches offset then
    (c.text.drop (placeOf c.text.length (c.position + offset)).toNat).take 1
  else []

/-- Takes the next character, if there is one. -/
def advance (c : Cursor) : Text × Cursor := (c.peek 0, if c.atEnd then c else c.skip 1)

/-- Steps one place ahead if what stands there is the expected text: one character, or nothing at
the end. -/
def accept (c : Cursor) (expected : Text) : Bool × Cursor :=
  if c.peek 0 = expected then (true, c.skip 1) else (false, c)

/-- Passes over spaces and tabs. -/
def skipSpaces (c : Cursor) : Cursor := c.moveTo (Text.skipSpaces c.rest)

/-! ### Tokens -/

/-- The word at the start of `rest`, which ends where the text ends: what stands in the text between
the two positions.  That is less than what was passed over if the word goes on past the end. -/
def wordIn (text rest : Text) : Text :=
  let position (ahead : Text) : Int := text.length - ahead.length
  slice text (position rest) (position (rest.dropWhile Token.isWordChar))

/-- Takes a token from what lies ahead of a cursor in the text. -/
def scan (text : Text) : Token.Scanner := fun rest =>
  match rest with
  | [] => (.empty, [])
  | '\'' :: _ => Token.next rest
  | '#' :: digits =>
    (Token.ofHex (Text.upper (wordIn text digits)), digits.dropWhile Token.isWordChar)
  | _ => Token.nextWord (wordIn text rest) (rest.dropWhile Token.isWordChar)

/-- Takes the next token. -/
def next (c : Cursor) : Token × Cursor :=
  let (token, rest) := scan c.text c.rest
  (token, c.moveTo rest)

end Cursor

end Cosmac
