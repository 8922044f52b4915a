import StackMachine.Text.Numeral

/-!
# Problems in assembly text

What can be wrong with a line of assembly, and the number of the line.
-/

namespace StackMachine.Assembly

/-- What is wrong with a line. -/
inductive Problem where
  /-- No opcode has that name. -/
  | unknownOpcode (token : String)
  /-- Something that needs arguments has too few of them. -/
  | missingArgument (owner : String) (expected : Nat)
  /-- A number is malformed or out of range. -/
  | invalidNumber (token : String)
  /-- A constant is malformed, or of a kind that the opcode does not take. -/
  | invalidLiteral (token : String)
  /-- A descriptor is malformed. -/
  | invalidDescriptor (token : String)
  /-- No element kind has that name or code. -/
  | invalidElementKind (token : String)
  /-- A token stands where another kind of token, or none, is expected. -/
  | unexpectedToken (token : String)
  /-- A quoted text is not closed. -/
  | unterminatedString
deriving DecidableEq, Repr

/-- A problem and the line that has it. -/
structure Error where
  /-- The number of the line, counted from one. -/
  line : Nat
  /-- What is wrong with it. -/
  problem : Problem
deriving DecidableEq, Repr

/-- The wording of a problem. -/
def Problem.message : Problem → String
  | unknownOpcode t => "unknown opcode '" ++ t ++ "'"
  | missingArgument owner n => owner ++ " expects " ++ Numeral.natText n ++ " operand(s)"
  | invalidNumber t => "invalid number '" ++ t ++ "'"
  | invalidLiteral t => "invalid literal '" ++ t ++ "'"
  | invalidDescriptor t => "invalid descriptor '" ++ t ++ "'"
  | invalidElementKind t => "invalid element kind '" ++ t ++ "'"
  | unexpectedToken t => "unexpected token '" ++ t ++ "'"
  | unterminatedString => "unterminated string literal"

/-- The wording of an error. -/
def Error.message (e : Error) : String :=
  "line " ++ Numeral.natText e.line ++ ": " ++ e.problem.message

end StackMachine.Assembly
