import StackMachine.Fault
import StackMachine.Opcode

/-!
# Failures of instructions

Why an instruction could not complete, together with its index in the block.
-/

namespace StackMachine

/-- Why an instruction could not complete. -/
inductive Cause where
  /-- The operation itself failed. -/
  | fault (f : Fault)
  /-- The stack had too few values. -/
  | stackUnderflow
  /-- The stack had no room. -/
  | stackOverflow
  /-- A value had the wrong kind. -/
  | kindMismatch (opcode : Opcode) (expected found : Kind)
  /-- An array was needed, and the reference was null. -/
  | nullReference
  /-- An array was needed, and the reference pointed to another object. -/
  | notAnArray (opcode : Opcode)
  /-- The array had the wrong element kind. -/
  | arrayKindMismatch (opcode : Opcode) (found : ElementKind)
  /-- An array of negative length was asked for. -/
  | negativeArraySize (size : Int32)
  /-- The operand does not fit the opcode. -/
  | badOperand (opcode : Opcode)
  /-- There is no static field of that name. -/
  | unknownField (name : String)
  /-- The static field has another kind than the instruction. -/
  | fieldKindMismatch (name : String) (declared found : Kind)
deriving DecidableEq, Repr

/-- A failed instruction. -/
structure Failure where
  /-- The index of the instruction. -/
  pc : Nat
  /-- Why it failed. -/
  cause : Cause
deriving DecidableEq, Repr

/-- The wording of a failure. -/
def Failure.message (e : Failure) : String :=
  let place := " at instruction " ++ Numeral.natText e.pc
  match e.cause with
  | .fault f => f.message ++ place
  | .stackUnderflow => "stack underflow" ++ place
  | .stackOverflow => "stack overflow" ++ place
  | .kindMismatch op expected found =>
    op.mnemonic ++ " expected " ++ expected.name ++ ", found " ++ found.name ++ place
  | .nullReference => "null reference" ++ place
  | .notAnArray op => op.mnemonic ++ " on non-array reference" ++ place
  | .arrayKindMismatch op found => op.mnemonic ++ " on " ++ found.name ++ " array" ++ place
  | .negativeArraySize size => "negative array size " ++ Numeral.intText size.toInt ++ place
  | .badOperand op => "malformed operand for " ++ op.mnemonic ++ place
  | .unknownField name => "unknown static field '" ++ name ++ "'" ++ place
  | .fieldKindMismatch name declared found =>
    "static field '" ++ name ++ "' is " ++ declared.name ++ ", not " ++ found.name ++ "," ++ place

end StackMachine
