import Cosmac.Diagnostic.Basic
import Cosmac.Expr.Basic
import Cosmac.Instruction.Table

/-!
# The shape of a statement

What the text of a statement says, before any symbol is looked up: its label, and whether it is an
equate, data, a directive or an instruction, with which operands.  A text that is not well formed
has a shape too: it keeps all that stands before the fault, since those parts are evaluated first
and may hold an error of their own.

    statement   := [label ":"] [operation] | name "=" expression
    operation   := "," data-list | "DC" data-list | "ORG" expression | "PAGE" | "END"
                 | mnemonic [operand] ["," data-list]
    data-list   := item ("," item)*
    item        := string | expression

Main statement: `length_readItem_le`, by which reading a data list ends.
-/

namespace Cosmac

/-- An item of a data list. -/
inductive Item where
  /-- A string, one byte for each character. -/
  | string (text : Text)
  /-- An expression. -/
  | expression (e : Expr)
  deriving DecidableEq, Repr

/-- A data list: the items read, and where reading broke off, if it did. -/
structure DataList where
  /-- The items. -/
  items : List Item := []
  /-- The fault behind the items, if there is one. -/
  fault : Option Break := none
  deriving DecidableEq, Repr

/-- An operand that was read, or the fault in it. -/
inductive Operand (α : Type) where
  /-- It could not be read. -/
  | broken (fault : Break)
  /-- It was read. -/
  | read (value : α)
  deriving DecidableEq, Repr

/-- The operand of an instruction. -/
inductive Argument where
  /-- There is none. -/
  | none
  /-- A register or device. -/
  | register (term : RegisterTerm)
  /-- An expression. -/
  | expression (e : Expr)
  deriving DecidableEq, Repr

/-- What a statement does. -/
inductive Operation where
  /-- Nothing. -/
  | empty
  /-- It holds data. -/
  | data (list : DataList)
  /-- It gives its label the value of an expression; `fault` is what stands behind that. -/
  | equate (operand : Operand Expr) (fault : Option Kind)
  /-- It moves the location counter; `fault` is what stands behind the expression. -/
  | origin (operand : Operand Expr) (fault : Option Kind)
  /-- It moves the location counter to the next page. -/
  | page
  /-- It ends the program. -/
  | finish
  /-- It is an instruction, with data behind it. -/
  | instruction (i : Instruction) (operand : Operand Argument) (data : DataList)
  /-- It is not well formed. -/
  | malformed (d : Diagnostic)
  deriving DecidableEq, Repr

/-- The shape of a statement. -/
structure Shape where
  /-- The label, or the name of an equate. -/
  label : Option Text := none
  /-- What the statement does. -/
  operation : Operation
  deriving DecidableEq, Repr

/-! ### Data lists -/

/-- The fault of a character that can neither continue a statement nor end it. -/
def unexpected (c : Char) : Kind := if c = '.' then .strayPeriod else .malformed

/-- The fault of what stands where the statement should end. -/
def trailing (t : Text) : Option Kind := (Text.skipSpaces t).head?.map unexpected

namespace Item

/-- The text starts with a sign. -/
def startsWithSign : Text → Bool
  | '+' :: _ => true
  | '-' :: _ => true
  | _ => false

/-- Reads an expression as an item. -/
def readExpression (t : Text) : Except Break Item × Text :=
  match Expr.read t with
  | (.error fault, rest) => (.error fault, rest)
  | (.ok e, rest) => (.ok (.expression e), rest)

/-- Reads an item.  A string with an offset behind it is an expression. -/
def read (t : Text) : Except Break Item × Text :=
  match Token.next t with
  | (.string s, rest) => if startsWithSign rest then readExpression t else (.ok (.string s), rest)
  | _ => readExpression t

theorem length_readExpression_le (t : Text) : (readExpression t).2.length ≤ t.length := by
  have h := Expr.length_read_le t
  unfold readExpression
  split <;> simp_all

theorem length_readItem_le (t : Text) : (read t).2.length ≤ t.length := by
  have hnext := Token.length_next_le t
  have hexpr := length_readExpression_le t
  unfold read
  split
  · split <;> simp_all
  · exact hexpr

end Item

/-- Puts an item before the others. -/
def DataList.cons (item : Item) (list : DataList) : DataList :=
  { list with items := item :: list.items }

/-- Reads items with commas between them, up to the end. -/
def DataList.read (t : Text) : DataList :=
  match _hread : Item.read (Text.skipSpaces t) with
  | (.error fault, _) => ⟨[], some fault⟩
  | (.ok item, rest) =>
    match _hbehind : Text.skipSpaces rest with
    | [] => ⟨[item], none⟩
    | c :: more =>
      if c = ',' then (DataList.read more).cons item else ⟨[item], some ⟨none, unexpected c⟩⟩
termination_by t.length
decreasing_by
  have hitem := Item.length_readItem_le (Text.skipSpaces t)
  have hskip := Text.length_skipSpaces_le t
  have hbehind := Text.length_skipSpaces_le rest
  rw [_hread] at hitem
  rw [_hbehind] at hbehind
  simp only [List.length_cons] at hbehind hitem
  omega

/-- Reads what follows an instruction: nothing, or a comma and a data list. -/
def DataList.readTrailer (t : Text) : DataList :=
  match Text.skipSpaces t with
  | [] => {}
  | ',' :: list => DataList.read list
  | c :: _ => ⟨[], some ⟨none, unexpected c⟩⟩

/-! ### Operations -/

namespace Argument

/-- Reads a register or device. -/
def readRegister (t : Text) : Operand Argument × Text :=
  match RegisterTerm.read t with
  | (.error kind, rest) => (.broken ⟨Option.none, kind⟩, rest)
  | (.ok term, rest) => (.read (.register term), rest)

/-- Reads an expression. -/
def readExpression (t : Text) : Operand Argument × Text :=
  match Expr.read t with
  | (.error fault, rest) => (.broken fault, rest)
  | (.ok e, rest) => (.read (.expression e), rest)

/-- Reads the operand that an instruction takes. -/
def read (kind : OperandKind) (t : Text) : Operand Argument × Text :=
  match kind with
  | .none => (.read .none, t)
  | .register | .nonzeroRegister | .device => readRegister t
  | .immediate | .shortAddress | .longAddress => readExpression t

end Argument

namespace Operation

/-- The names that are directives. -/
def directives : List Text := ["DC", "END", "ORG", "PAGE"].map String.toList

/-- Reads an expression that ends the statement. -/
def readLast (make : Operand Expr → Option Kind → Operation) (t : Text) : Operation :=
  match Expr.read t with
  | (.error fault, _) => make (.broken fault) none
  | (.ok e, rest) => make (.read e) (trailing rest)

/-- A directive without an operand. -/
def readBare (operation : Operation) (t : Text) : Operation :=
  if (Text.skipSpaces t).isEmpty then operation else .malformed (.ofKind .malformed)

/-- Reads the operands of an instruction.  Behind a fault nothing is read. -/
def readInstruction (i : Instruction) (t : Text) : Operation :=
  match Argument.read i.operand t with
  | (.broken fault, _) => .instruction i (.broken fault) {}
  | (.read a, rest) => .instruction i (.read a) (DataList.readTrailer rest)

/-- Reads the operands of the directive or instruction with the given name. -/
def read (name t : Text) : Operation :=
  if name = "DC".toList then .data (DataList.read t)
  else if name = "ORG".toList then readLast .origin t
  else if name = "PAGE".toList then readBare .page t
  else if name = "END".toList then readBare .finish t
  else
    match Instruction.ofMnemonic? name with
    | none => .malformed (.unknownMnemonic name)
    | some i => readInstruction i t

end Operation

/-! ### Statements -/

namespace Shape

/-- Reads the name at the start of a statement or behind its label. -/
def readName (t : Text) : Except Kind Text × Text :=
  match t with
  | [] => (.error .malformed, [])
  | c :: _ =>
    if c = '.' then (.error .strayPeriod, t)
    else if !c.isAlpha then (.error .badStart, t)
    else
      match Token.next t with
      | (.malformed kind _, rest) => (.error kind, rest)
      | (.word name, rest) => (.ok name, rest)
      | (_, rest) => (.error .malformed, rest)

/-- A shape that is not well formed. -/
def broken (label : Option Text) (kind : Kind) : Shape := ⟨label, .malformed (.ofKind kind)⟩

/-- Reads what stands behind a label. -/
def readLabelled (label t : Text) : Shape :=
  match Text.skipSpaces t with
  | [] => ⟨some label, .empty⟩
  | ',' :: list => ⟨some label, .data (DataList.read list)⟩
  | start =>
    match readName start with
    | (.error kind, _) => broken (some label) kind
    | (.ok name, rest) =>
      match Text.skipSpaces rest with
      -- an equate takes no label
      | '=' :: _ => broken (some label) .malformed
      | operands => ⟨some label, Operation.read name operands⟩

/-- Reads a statement that starts with a name. -/
def readNamed (t : Text) : Shape :=
  match readName t with
  | (.error kind, _) => broken none kind
  | (.ok label, ':' :: rest) => readLabelled label rest
  | (.ok name, rest) =>
    match Text.skipSpaces rest with
    | '=' :: value => ⟨some name, Operation.readLast .equate value⟩
    | operands => ⟨none, Operation.read name operands⟩

/-- The character may stand before a statement. -/
def isLeading (c : Char) : Bool := Text.isSpace c || c == ';'

/-- The shape of a statement's text. -/
def read (t : Text) : Shape :=
  match t.dropWhile isLeading with
  | [] => ⟨none, .empty⟩
  | ',' :: list => ⟨none, .data (DataList.read list)⟩
  | start => readNamed start

end Shape

end Cosmac
