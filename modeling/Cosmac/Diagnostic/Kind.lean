/-!
# Kinds of error

The closed list of what can be wrong with a statement, each with the one text that the listing
prints for it and a short code.
-/

namespace Cosmac

/-- What is wrong with a statement. -/
inductive Kind where
  | invalidMnemonic
  | duplicateSymbol
  | invalidBinary
  | invalidDecimal
  | missingConstant
  | undefinedSymbol
  | missingExpression
  | invalidHex
  | missingQuote
  | strayPeriod
  | badStart
  | branchOutOfPage
  | invalidRegister
  | invalidDevice
  | missingParenthesis
  | malformed
  | sizeChanged
  deriving DecidableEq, Repr

/-- The text of the listing. -/
def Kind.message : Kind → String
  | invalidMnemonic => "Invalid mnemonic or missing comma"
  | duplicateSymbol => "Previously defined symbol"
  | invalidBinary => "Invalid binary constant"
  | invalidDecimal => "Invalid decimal constant"
  | missingConstant => "A constant was expected"
  | undefinedSymbol => "Undefined symbol"
  | missingExpression => "An expression was expected"
  | invalidHex => "Invalid hex constant"
  | missingQuote => "Missing end quote in string"
  | strayPeriod => "Invalid '.'"
  | badStart => "Invalid char at start of statement"
  | branchOutOfPage => "Branch out of page"
  | invalidRegister => "Invalid register number"
  | invalidDevice => "Invalid device number"
  | missingParenthesis => "Missing closing parenthesis"
  | malformed => "Syntax error"
  | sizeChanged => "Size changed between passes"

/-- The short code. -/
def Kind.code : Kind → String
  | invalidMnemonic => "INV_MNE"
  | duplicateSymbol => "DUP_SYM"
  | invalidBinary => "INV_BCONST"
  | invalidDecimal => "INV_DCONST"
  | missingConstant => "MISSING_CONST"
  | undefinedSymbol => "UNDEF_SYMB"
  | missingExpression => "MISSING_EXPR"
  | invalidHex => "INV_HCONST"
  | missingQuote => "MISSING_QUOTE"
  | strayPeriod => "INV_PERIOD"
  | badStart => "BAD_START"
  | branchOutOfPage => "INV_BRANCH"
  | invalidRegister => "INV_REG"
  | invalidDevice => "INV_DEV"
  | missingParenthesis => "MISSING_PAREN"
  | malformed => "INV_SYNTAX"
  | sizeChanged => "PHASE"

end Cosmac
