import Cosmac.Command.Failure
import Cosmac.Command.Options
import Cosmac.Log
import Cosmac.Text.Control
import Cosmac.Workspace

/-!
# Running a command

A command prints to two streams and changes files, until it is done or fails.  What it printed and
wrote before a failure stays.  Control sequences are left out of what it prints; the log has them.
-/

namespace Cosmac.Command

/-- The version of the tools. -/
def version : Text := "1.0.0".toList

/-- What a command has printed, and the files. -/
structure Console where
  /-- Standard output. -/
  out : Text := []
  /-- Standard error. -/
  err : Text := []
  /-- The files. -/
  files : Workspace
  deriving DecidableEq, Repr

namespace Console

/-- Prints a text. -/
def print (console : Console) (text : Text) : Console :=
  { console with out := console.out ++ Text.withoutSequences text }

/-- Prints a text to standard error. -/
def printError (console : Console) (text : Text) : Console :=
  { console with err := console.err ++ Text.withoutSequences text }

/-- Reports a failure; `errorType` is what an error of the program is called. -/
def report (console : Console) (errorType : Text) (f : Failure) : Console :=
  console.printError (f.report errorType ++ ['\n'])

/-- Adds a line to the log, which goes to standard error as it is. -/
def logLine (console : Console) (line : Text) : Console :=
  { console with err := console.err ++ line ++ ['\n'] }

end Console

/-- Why a command stops before its end. -/
inductive Halt where
  /-- It failed. -/
  | failure (f : Failure)
  /-- It has said all there is to say. -/
  | exit (status : ExitStatus)
  deriving DecidableEq, Repr

/-- A command in progress. -/
abbrev Action := ExceptT Halt (StateM Console)

/-- Prints a line. -/
def echo (line : Text) : Action Unit := modify (·.print (line ++ ['\n']))

/-- Prints a text that ends its own lines. -/
def print (text : Text) : Action Unit := modify (·.print text)

/-- Prints a line to standard error. -/
def echoError (line : Text) : Action Unit := modify (·.printError (line ++ ['\n']))

/-- Fails. -/
def fail {α : Type} (f : Failure) : Action α := throw (.failure f)

/-- Writes messages of the log. -/
def log (verbose : Bool) (records : List LogRecord) : Action Unit :=
  (records.flatMap (LogRecord.rows verbose)).forM fun line => modify (·.logLine line)

/-- The failure for a file that cannot be read or written. -/
def fileFailure (fault : FileFault) (p : Path) : Failure :=
  match fault with
  | .missing | .isFolder => .file (fault.message p)
  | .notFolder | .nameTooLong | .invalidName => .internal (fault.message p)

/-- Writes a file. -/
def writeFile (p : Path) (bytes : List UInt8) : Action Unit := do
  match (← get).files.write p bytes with
  | .error fault => fail (fileFailure fault p)
  | .ok files => modify fun console => { console with files }

/-- How a command line ended. -/
inductive Outcome where
  /-- The command line is not one that the command takes. -/
  | usageError
  /-- The command line was given up without a word. -/
  | abandoned
  /-- The command ran. -/
  | finished (status : ExitStatus) (console : Console)
  deriving DecidableEq, Repr

/-! ### Checking a command line -/

/-- Why a command line is not carried out. -/
inductive Refusal where
  /-- It is not one that the command takes. -/
  | usage
  /-- A path in it holds the null character, so that no file can be looked up there. -/
  | nullInPath
  deriving DecidableEq, Repr

/-- How a refused command line ends. -/
def Refusal.outcome : Refusal → Outcome
  | usage => .usageError
  | nullInPath => .abandoned

/-- Checks the path of a file as written: it must not be a folder's, and must exist if so asked. -/
def checkPath (files : Workspace) (mustExist : Bool) (t : Text) : Except Refusal Unit :=
  if t.contains '\x00' then .error .nullInPath
  else
    match files.entry? t with
    | some .folder => .error .usage
    | some (.file _) => .ok ()
    | none => if mustExist then .error .usage else .ok ()

/-- Checks the words of a command line: the values of its options, in their order, and then the
one word that is no option.  Of an option that is given several times the last value counts. -/
def checkWords {α : Type} [BEq α] (w : Words α) (checkOption : α → Text → Except Refusal Unit)
    (checkWord : Text → Except Refusal Unit) : Except Refusal Text := do
  w.options.forM fun (key, _) => checkOption key ((w.last? key).getD [])
  match w.positional with
  | [] => .error .usage
  | word :: more =>
    checkWord word
    if more.isEmpty then .ok word else .error .usage

/-- Runs a command on files; `errorType` is what it calls an error of the program. -/
def perform (errorType : String) (files : Workspace) (action : Action Unit) : Outcome :=
  match action.run.run { files } with
  | (.ok (), console) => .finished .success console
  | (.error (.exit status), console) => .finished status console
  | (.error (.failure f), console) =>
    .finished f.status (console.report errorType.toList f)

/-- The outcome of a command line whose options are at fault. -/
def optionFault (files : Workspace) (fault : OptionFault) : Outcome :=
  match fault.message? with
  | none => .usageError
  | some message =>
    .finished .invalidArguments
      (Console.printError { files } ("Error: ".toList ++ message ++ ['\n']))

/-- Prints a line and does nothing else. -/
def only (files : Workspace) (line : Text) : Outcome :=
  .finished .success (Console.print { files } (line ++ ['\n']))

end Cosmac.Command
