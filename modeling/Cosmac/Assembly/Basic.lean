import Cosmac.Assembly.Coding
import Cosmac.Diagnostic.Report
import Cosmac.Image
import Cosmac.Listing

/-!
# Assembly

An assembly holds a program, its symbols and what the passes made of it.  `load` takes the source,
`layout` and `code` run the passes, `generate` does all three.  The results of the second pass are
all read off its trace: the image, the errors, and the listing, which shows every source line up
to the end of the program.
-/

namespace Cosmac

/-- A program with its symbols and the results of the passes. -/
structure Assembly where
  /-- Symbols, location counter and pass. -/
  context : Context := {}
  /-- The source lines. -/
  source : List Text := []
  /-- The statements, as the last pass left them. -/
  statements : List Statement := []
  /-- The sizes of the statements in the last layout. -/
  sizes : List Nat := []
  /-- The last layout found no end of the program. -/
  missingEnd : Bool := false
  /-- The code. -/
  image : Image := {}
  /-- The listing. -/
  listing : List ListingLine := []
  /-- The errors and warnings. -/
  report : Report := {}
  deriving DecidableEq, Repr

namespace Assembly

/-- The warning about a program without an end. -/
def missingEndWarning : Text := "Missing END directive".toList

/-! ### Results of the second pass -/

/-- The code of the steps, each at its location counter. -/
def imageOf (steps : List Coding.Step) : Image :=
  steps.foldl (fun image s => image.emit s.start s.code) {}

/-- The listing line of a source line with its steps; `address` is for a line without any. -/
def listingLine (number : Int) (source : Text) (steps : List Coding.Step) (address : Int) :
    ListingLine where
  address := (steps.head?.map (·.start)).getD address
  code := steps.flatMap (·.code)
  line := number
  source
  diagnostics := (steps.flatMap (·.errors)).map (·.kind.message.toList)

/-- The listing of the lines from `number` on; `address` is the location counter before them. -/
def listingFrom (number : Int) (lines : List Text) (steps : List Coding.Step) (address : Int) :
    List ListingLine :=
  match lines with
  | [] => []
  | source :: rest =>
    let own := steps.takeWhile (·.statement.line == number)
    listingLine number source own address ::
      listingFrom (number + 1) rest (steps.dropWhile (·.statement.line == number))
        ((own.getLast?.map (·.stop)).getD address)

/-- The number of source lines that are listed: up to the end of the program. -/
def listedLines (lineCount : Nat) (steps : List Coding.Step) : Nat :=
  match steps.getLast? with
  | some s => if s.statement.isEnd then s.statement.line.toNat else lineCount
  | none => lineCount

/-! ### Running -/

/-- Defines a symbol before the program. -/
def define (a : Assembly) (name : Text) (value : Option Int) : Except Diagnostic Assembly :=
  match a.context.symbols.define name value predefinedIndex none with
  | .error d => .error d
  | .ok symbols => .ok { a with context := { a.context with symbols } }

/-- Takes the source lines of a program. -/
def load (a : Assembly) (lines : List Text) : Assembly :=
  let source := lines.map Text.dropTerminator
  { a with source, statements := Statement.ofSource source }

/-- The steps of a layout, and the context behind them. -/
def layoutRun (a : Assembly) : List Layout.Step × Context :=
  Layout.run (a.context.reset .first) a.statements

/-- The steps of generating code, and the context behind them. -/
def codeRun (a : Assembly) : List Coding.Step × Context :=
  Coding.run (a.context.reset .final) a.sizes a.statements

/-- The statements that a pass reached, followed by the others as they were. -/
def replaceReached (a : Assembly) (reached : List Statement) : List Statement :=
  reached ++ a.statements.drop reached.length

/-- Lays the program out. -/
def layout (a : Assembly) : Assembly :=
  let reached := a.layoutRun.1.map (·.statement)
  { a with
    context := a.layoutRun.2
    statements := a.replaceReached reached
    sizes := reached.map (·.reading.size)
    missingEnd := !reached.any (·.isEnd) }

/-- Generates code. -/
def code (a : Assembly) : Assembly :=
  let steps := a.codeRun.1
  { a with
    context := a.codeRun.2
    statements := a.replaceReached (steps.map (·.statement))
    image := imageOf steps
    listing := listingFrom 1 (a.source.take (listedLines a.source.length steps)) steps 0
    report := {
      errors := steps.flatMap (·.errors)
      warnings := if a.missingEnd then [missingEndWarning] else [] } }

/-- Assembles source lines. -/
def generate (a : Assembly) (lines : List Text) : Assembly := (a.load lines).layout.code

end Assembly

end Cosmac
