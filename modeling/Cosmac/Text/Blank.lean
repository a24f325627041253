import Cosmac.Text.Basic

/-!
# Blank characters

The white space of Unicode, together with the four information separators U+001C to U+001F.  It
decides which statements are empty, what is cut off at the end of a listing row, and how the rows
of a symbol file fall into fields.  Inside a statement only the space and the tab separate, see
`Cosmac.Text.skipSpaces`.
-/

namespace Cosmac.Text

/-- Code points of the blank characters. -/
def blankRanges : List (Nat × Nat) :=
  [(0x9, 0xD), (0x1C, 0x20), (0x85, 0x85), (0xA0, 0xA0), (0x1680, 0x1680), (0x2000, 0x200A),
   (0x2028, 0x2029), (0x202F, 0x202F), (0x205F, 0x205F), (0x3000, 0x3000)]

/-- The character is white space. -/
def isBlank (c : Char) : Bool := inRanges blankRanges c

/-- The text holds nothing but blanks. -/
def allBlank (t : Text) : Bool := t.all isBlank

/-- The text without its leading and trailing blanks. -/
def strip (t : Text) : Text := dropTail isBlank (t.dropWhile isBlank)

/-- The text without its trailing blanks. -/
def stripRight (t : Text) : Text := dropTail isBlank t

/-- The maximal runs of non-blank characters, in order. -/
def fields : Text → List Text
  | [] => []
  | c :: rest =>
    if isBlank c then fields rest
    else
      match rest, fields rest with
      | d :: _, word :: words => if isBlank d then [c] :: word :: words else (c :: word) :: words
      | _, words => [c] :: words

/-- The character separates the parts of a statement: a space or a tab. -/
def isSpace (c : Char) : Bool := c == ' ' || c == '\t'

/-- The text from its first character that is neither a space nor a tab. -/
def skipSpaces (t : Text) : Text := t.dropWhile isSpace

theorem length_skipSpaces_le (t : Text) : (skipSpaces t).length ≤ t.length :=
  (List.dropWhile_sublist isSpace).length_le

end Cosmac.Text
