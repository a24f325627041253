import Cosmac.Text.Basic

/-!
# Lines

Where a text breaks into lines.  A carriage return and the line feed after it are one break.  A
break ends a line, so a final break opens no further line.
-/

namespace Cosmac.Text

/-- The character ends a line. -/
def isLineBreak (c : Char) : Bool :=
  inRanges [(0xA, 0xD), (0x1C, 0x1E), (0x85, 0x85), (0x2028, 0x2029)] c

/-- The lines of a text, without their breaks. -/
def splitLines : Text → List Text
  | [] => []
  | '\r' :: '\n' :: rest => [] :: splitLines rest
  | c :: rest =>
    if isLineBreak c then [] :: splitLines rest
    else
      match splitLines rest with
      | [] => [[c]]
      | line :: lines => (c :: line) :: lines

/-- Every carriage return, with the line feed after it if there is one, becomes a line feed. -/
def unifyNewlines : Text → Text
  | [] => []
  | '\r' :: '\n' :: rest => '\n' :: unifyNewlines rest
  | '\r' :: rest => '\n' :: unifyNewlines rest
  | c :: rest => c :: unifyNewlines rest

/-- The line without the carriage returns and line feeds at its end. -/
def dropTerminator (line : Text) : Text :=
  dropTail (fun c => c == '\r' || c == '\n') line

end Cosmac.Text
