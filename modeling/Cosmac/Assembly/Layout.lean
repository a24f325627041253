import Cosmac.Statement.Resolve

/-!
# The layout pass

The first pass reads the statements in order, up to the end of the program.  It binds labels to
the location counter and equates to their values, and moves the location counter.  Its trace holds
the context in which each statement was read, so that facts about addresses can be stated step by
step.
-/

namespace Cosmac

/-- The statement ends the program. -/
def Statement.isEnd (s : Statement) : Bool := s.reading.status == .finish

/-- The value that a definition gives its symbol: the location counter, for an equate the value of
its expression if that is known. -/
def Context.definedValue (c : Context) (s : Statement) : Option Int :=
  if s.reading.equate then
    if s.reading.status.error?.isSome || s.reading.unresolved then none else some s.reading.value
  else some c.pc

/-- Binds the label of a statement, if it has one. -/
def Context.bindLabel (c : Context) (s : Statement) : Context :=
  match s.reading.label with
  | none => c
  | some name =>
    { c with symbols := c.symbols.bind name (c.definedValue s) s.index (some s.line) }

/-- Moves the location counter past a statement. -/
def Context.move (c : Context) (s : Statement) : Context :=
  match s.reading.status with
  | .origin => c.setPc s.reading.value
  | .page => c.nextPage
  | .equate => c
  | _ => c.advance s.reading.size

namespace Layout

/-- A statement as the pass read it, and the context in which it did. -/
structure Step where
  /-- The context before the statement. -/
  before : Context
  /-- The statement, read in that context. -/
  statement : Statement
  deriving DecidableEq, Repr

/-- Reads the statements from a context on; the trace, and the context at the end. -/
def run (c : Context) : List Statement → List Step × Context
  | [] => ([], c)
  | s :: rest =>
    let s := s.parse c
    let bound := c.bindLabel s
    if s.isEnd then ([⟨c, s⟩], bound)
    else
      let (steps, final) := run (bound.move s) rest
      (⟨c, s⟩ :: steps, final)

end Layout

end Cosmac
