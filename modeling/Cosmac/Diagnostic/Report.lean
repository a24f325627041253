import Cosmac.Diagnostic.Basic

/-!
# Reports

The errors of a run in the order in which they were found, and its warnings.
-/

namespace Cosmac

/-- The errors and warnings of a run. -/
structure Report where
  /-- The errors, in the order found. -/
  errors : List Diagnostic := []
  /-- The warnings, in the order found. -/
  warnings : List Text := []
  deriving DecidableEq, Repr

namespace Report

/-- Adds an error. -/
def add (r : Report) (d : Diagnostic) : Report := { r with errors := r.errors ++ [d] }

/-- Adds a warning. -/
def warn (r : Report) (warning : Text) : Report := { r with warnings := r.warnings ++ [warning] }

/-- There are errors. -/
def hasErrors (r : Report) : Bool := !r.errors.isEmpty

/-- The number of errors. -/
def errorCount (r : Report) : Nat := r.errors.length

/-- The number with its noun, which has no `s` after one. -/
def counted (n : Nat) (noun : String) : Text :=
  Numeral.decimal n ++ [' '] ++ noun.toList ++ (if n == 1 then [] else ['s'])

/-- All errors, all warnings and a line with their numbers. -/
def render (r : Report) : Text :=
  let warnings :=
    if r.warnings.isEmpty then []
    else "Warnings:".toList :: r.warnings.map ("  ".toList ++ ·)
  let summary := counted r.errors.length "error" ++ ", ".toList ++
    counted r.warnings.length "warning"
  Text.joinLines (r.errors.map Diagnostic.message ++ warnings ++ [summary])

end Report

end Cosmac
