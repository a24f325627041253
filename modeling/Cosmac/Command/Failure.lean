import Cosmac.Text.Quoted

/-!
# How a command ends

Every failure of a command has a message and one of four exit statuses.
-/

namespace Cosmac.Command

/-- The exit statuses. -/
inductive ExitStatus where
  /-- All went well. -/
  | success
  /-- The source program has errors. -/
  | assemblyError
  /-- An argument is invalid or a file is missing. -/
  | invalidArguments
  /-- Something unexpected happened. -/
  | internalError
  deriving DecidableEq, Repr

/-- The number of an exit status. -/
def ExitStatus.code : ExitStatus → Nat
  | success => 0
  | assemblyError => 1
  | invalidArguments => 2
  | internalError => 3

/-- How a message names the parameter that is invalid. -/
inductive Hint where
  /-- Not at all. -/
  | none
  /-- By one name. -/
  | name (name : Text)
  /-- By all its names, in quotes. -/
  | names (names : List Text)
  deriving DecidableEq, Repr

/-- Why a command failed. -/
inductive Failure where
  /-- The source program is wrong. -/
  | program (message : Text)
  /-- The value of a parameter is invalid. -/
  | parameter (hint : Hint) (message : Text)
  /-- A file cannot be read or written. -/
  | file (message : Text)
  /-- Something unexpected happened. -/
  | internal (message : Text)
  deriving DecidableEq, Repr

namespace Failure

/-- The exit status of a failure. -/
def status : Failure → ExitStatus
  | program _ => .assemblyError
  | parameter _ _ | file _ => .invalidArguments
  | internal _ => .internalError

/-- The message about an invalid parameter. -/
def parameterMessage (hint : Hint) (message : Text) : Text :=
  let subject :=
    match hint with
    | .none => []
    | .name name => " for ".toList ++ name
    | .names names =>
      " for ".toList ++ " / ".toList.intercalate (names.map Text.quoted)
  "Invalid value".toList ++ subject ++ ": ".toList ++ message

/-- The message of a failure; `errorType` is what an error of the program is called. -/
def report (errorType : Text) : Failure → Text
  | program message =>
    if errorType.isEmpty then "Error: ".toList ++ message
    else errorType ++ " error: ".toList ++ message
  | parameter hint message => "Error: ".toList ++ parameterMessage hint message
  | file message => "Error: ".toList ++ message
  | internal message => "Internal error: ".toList ++ message

end Failure

end Cosmac.Command
