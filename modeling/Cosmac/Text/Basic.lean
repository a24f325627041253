/-!
# Text

Source lines, names, rows of a listing: all of it is a sequence of characters.  The library reads
and prints `Text`, the list of those characters, so that every reader recurses on its input and
every printer can be compared with its reader.  `String` appears only in literals and at the edge.
-/

namespace Cosmac

/-- A piece of text, as the list of its characters. -/
abbrev Text := List Char

namespace Text

/-- The code point of the character lies in one of the closed ranges. -/
def inRanges (ranges : List (Nat × Nat)) (c : Char) : Bool :=
  ranges.any fun range => decide (range.1 ≤ c.toNat) && decide (c.toNat ≤ range.2)

/-- The text without the longest tail whose characters all satisfy `p`. -/
def dropTail (p : Char → Bool) (t : Text) : Text :=
  (t.reverse.dropWhile p).reverse

/-- Fills up on the right with spaces to at least `width` characters. -/
def padRight (width : Nat) (t : Text) : Text :=
  t ++ List.replicate (width - t.length) ' '

/-- Fills up on the left with `fill` to at least `width` characters. -/
def padLeft (fill : Char) (width : Nat) (t : Text) : Text :=
  List.replicate (width - t.length) fill ++ t

/-- The pieces of a text between separators; there is always one. -/
def splitOn (separator : Char) : Text → List Text
  | [] => [[]]
  | c :: rest =>
    if c = separator then [] :: splitOn separator rest
    else
      match splitOn separator rest with
      | [] => [[c]]
      | piece :: pieces => (c :: piece) :: pieces

/-- The rows with a line feed between each two of them. -/
def joinLines (rows : List Text) : Text :=
  ['\n'].intercalate rows

/-- The rows with a line feed after each of them. -/
def unlines (rows : List Text) : Text :=
  rows.flatMap (· ++ ['\n'])

end Text

end Cosmac
