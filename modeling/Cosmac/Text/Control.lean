import Cosmac.Text.Basic

/-!
# Control sequences

A terminal takes the escape character, `[`, digits with `;` and `?` among them, and a letter as an
order for itself.  Such a sequence in a source line or in a file name is no part of what a reader
should see, so the tools leave it out of what they print.

Main statement: `length_behindSequence_lt`, a sequence takes at least one character.
-/

namespace Cosmac.Text

/-- The character can stand between the bracket and the letter of a control sequence. -/
def isParameter (c : Char) : Bool := c.isDigit || c == ';' || c == '?'

/-- What follows the control sequence at the start of the text, if there is one. -/
def behindSequence? : Text → Option Text
  | '\x1b' :: '[' :: rest =>
    match rest.dropWhile isParameter with
    | c :: behind => if c.isAlpha then some behind else none
    | [] => none
  | _ => none

/-- **A control sequence takes at least one character.** -/
theorem length_behindSequence_lt {t behind : Text} (h : behindSequence? t = some behind) :
    behind.length < t.length := by
  unfold behindSequence? at h
  split at h
  next rest =>
    have hdrop := (List.dropWhile_sublist isParameter (l := rest)).length_le
    split at h
    next c r hr =>
      rw [hr] at hdrop
      split at h
      · cases h
        simp only [List.length_cons] at hdrop ⊢
        omega
      · cases h
    · cases h
  · cases h

/-- The text without its control sequences. -/
def withoutSequences (t : Text) : Text :=
  match t with
  | [] => []
  | c :: rest =>
    match _hbehind : behindSequence? (c :: rest) with
    | some behind => withoutSequences behind
    | none => c :: withoutSequences rest
termination_by t.length
decreasing_by
  · exact length_behindSequence_lt _hbehind
  · simp

end Cosmac.Text
