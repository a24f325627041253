import Cosmac.SymbolTable

/-!
# Context

What a statement is read against: the symbols, the location counter and the pass.
-/

namespace Cosmac

/-- A run over the program. -/
structure Pass where
  /-- Its number. -/
  number : Int
  deriving DecidableEq, Repr

namespace Pass

/-- The pass that lays the program out. -/
def first : Pass := ⟨1⟩

/-- The pass that generates code. -/
def final : Pass := ⟨2⟩

/-- Undefined symbols and branches out of their page are errors in this pass. -/
def isFinal (p : Pass) : Bool := p.number == 2

end Pass

/-- Symbols, location counter and pass. -/
structure Context where
  /-- The symbols known so far. -/
  symbols : SymbolTable := {}
  /-- The location counter. -/
  pc : Int := 0
  /-- The pass. -/
  pass : Pass := .first
  deriving DecidableEq, Repr

namespace Context

/-- Starts a pass: the location counter goes back to 0. -/
def reset (c : Context) (pass : Pass) : Context := { c with pass, pc := 0 }

/-- Moves the location counter to an address. -/
def setPc (c : Context) (address : Int) : Context := { c with pc := word address }

/-- Moves the location counter on. -/
def advance (c : Context) (size : Int) : Context := { c with pc := word (c.pc + size) }

/-- Moves the location counter to the start of the next page. -/
def nextPage (c : Context) : Context := { c with pc := highByte (c.pc + 0x100) * 0x100 }

end Context

end Cosmac
