import Cosmac.Assembly.Layout

/-!
# The coding pass

The second pass reads the statements again, now with all labels known, and generates code.  A
statement in error, or one whose size differs from the layout, generates none and takes the room
it had in the layout, so that all other statements stay where they were.
-/

namespace Cosmac.Coding

/-- A statement as the pass left it, with what it contributed. -/
structure Step where
  /-- The location counter before the statement. -/
  start : Int
  /-- The statement. -/
  statement : Statement
  /-- Its errors. -/
  errors : List Diagnostic
  /-- Its code in the image. -/
  code : List UInt8
  /-- The location counter behind the statement. -/
  stop : Int
  deriving DecidableEq, Repr

/-- Checks a definition against the symbol table: a symbol that is missing is bound, a second
definition is an error, and an equate gives its symbol the value it has now. -/
def checkDefinition (c : Context) (s : Statement) : List Diagnostic × Context :=
  match s.reading.label with
  | none => ([], c)
  | some name =>
    match c.symbols.lookup name with
    | none => ([], c.bindLabel s)
    | some symbol =>
      if symbol.index ≠ s.index then
        ([.duplicate symbol.name (some s.line) symbol.line], c)
      else if s.reading.status = .equate then
        ([], { c with
          symbols := c.symbols.modify name fun t => { t with value := some (word s.reading.value) } })
      else ([], c)

/-- The statement with another size. -/
def resize (s : Statement) (size : Nat) : Statement :=
  { s with reading := { s.reading with size } }

/-- A statement in error takes the room of the layout, or else the room it had up to the error. -/
def failedStep (c : Context) (layout : Option Nat) (s : Statement) (d : Diagnostic) :
    Step × Context :=
  let d := d.atLine s.line
  let s := resize { s with reading := { s.reading with status := .failed d } }
    (layout.getD s.reading.size)
  let after := c.advance s.reading.size
  (⟨c.pc, s, [d], [], after.pc⟩, after)

/-- A well-formed statement other than the end. -/
def codedStep (c : Context) (layout : Option Nat) (s : Statement) : Step × Context :=
  let (errors, checked) := checkDefinition c s
  let expected := layout.getD s.reading.size
  if expected ≠ s.reading.size then
    let after := checked.advance expected
    (⟨c.pc, resize s expected, errors ++ [.phase expected s.reading.size (some s.line)], [],
      after.pc⟩, after)
  else
    let after := checked.move s
    (⟨c.pc, s, errors, s.reading.code, after.pc⟩, after)

/-- The statement that ends the program. -/
def endStep (c : Context) (s : Statement) : Step × Context :=
  let (errors, checked) := checkDefinition c s
  (⟨c.pc, s, errors, [], checked.pc⟩, checked)

/-- One statement, whose size in the layout is given if it is known. -/
def step (c : Context) (layout : Option Nat) (s : Statement) : Step × Context :=
  let s := s.parse c
  match s.reading.status with
  | .failed d => failedStep c layout s d
  | .finish => endStep c s
  | _ => codedStep c layout s

/-- Generates code for the statements from a context on, with their sizes in the layout. -/
def run (c : Context) (layout : List Nat) : List Statement → List Step × Context
  | [] => ([], c)
  | s :: rest =>
    let (now, after) := step c layout.head? s
    if now.statement.isEnd then ([now], after)
    else
      let (steps, final) := run after layout.tail rest
      (now :: steps, final)

end Cosmac.Coding
