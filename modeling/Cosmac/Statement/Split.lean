import Cosmac.Text.Blank

/-!
# Statements of a line

A source line holds statements with semicolons between them, and `..` starts a comment.  Neither
counts between quotes.  What is left blank is no statement.
-/

namespace Cosmac.Statement

/-- Puts a character before the first piece. -/
def consFirst (c : Char) : List Text → List Text
  | [] => [[c]]
  | piece :: pieces => (c :: piece) :: pieces

/-- The pieces of a line up to its comment, cut at the semicolons; `quoted` says that the text
starts between quotes. -/
def pieces (quoted : Bool) : Text → List Text
  | [] => [[]]
  | c :: rest =>
    if c = '\'' then consFirst c (pieces (!quoted) rest)
    else if quoted then consFirst c (pieces true rest)
    else if c = '.' ∧ rest.head? = some '.' then [[]]
    else if c = ';' then [] :: pieces false rest
    else consFirst c (pieces false rest)

/-- The texts of the statements of a line. -/
def splitLine (line : Text) : List Text := (pieces false line).filter (!Text.allBlank ·)

/-- The texts of the statements of a line, each with the number of the line. -/
def numberedTexts (line : Text) (number : Int) : List (Text × Int) :=
  (splitLine line).map fun text => (text, number)

end Cosmac.Statement
