import Cosmac.Text.Basic

/-!
# Log

What the tools tell about their progress, in order of time.
-/

namespace Cosmac

/-- A message of the log. -/
inductive LogRecord where
  /-- Progress, shown as it is on request. -/
  | progress (text : Text)
  /-- A detail, shown on request. -/
  | debug (text : Text)
  /-- A warning, always shown. -/
  | warning (text : Text)
  deriving DecidableEq, Repr

namespace LogRecord

/-- The rows that a message gives: all, details and warnings with their level, or the warnings
alone. -/
def rows (verbose : Bool) : LogRecord → List Text
  | progress text => if verbose then [text] else []
  | debug text => if verbose then ["DEBUG: ".toList ++ text] else []
  | warning text => if verbose then ["WARNING: ".toList ++ text] else [text]

/-- The rows that a message gives where only progress is shown. -/
def progressRows (verbose : Bool) : LogRecord → List Text
  | progress text => if verbose then [text] else []
  | _ => []

end LogRecord

end Cosmac
