import StackMachine.Opcode
import StackMachine.Text.Numeral

/-!
# Looking up names and codes

Opcodes by mnemonic, and element kinds by name or type code, with a report of those
that do not exist.
-/

namespace StackMachine

/-- A name or code that stands for nothing. -/
inductive LookupError where
  /-- No element kind has that type code. -/
  | typeCode (code : Nat)
  /-- No element kind has that name. -/
  | elementKind (name : String)
  /-- No opcode has that mnemonic. -/
  | mnemonic (name : String)
deriving DecidableEq, Repr

/-- The wording of a failed look-up. -/
def LookupError.message : LookupError → String
  | typeCode code => "invalid array element type code: " ++ Numeral.natText code
  | elementKind name => "unknown array element kind '" ++ name ++ "'"
  | mnemonic name => "unknown mnemonic '" ++ name ++ "'"

/-- The element kind with a type code. -/
def ElementKind.lookupCode (code : Nat) : Except LookupError ElementKind :=
  (ofTypeCode? code).elim (.error (.typeCode code)) .ok

/-- The element kind with a name. -/
def ElementKind.lookup (name : String) : Except LookupError ElementKind :=
  (ofName? name).elim (.error (.elementKind name)) .ok

/-- The opcode with a mnemonic. -/
def Opcode.lookup (name : String) : Except LookupError Opcode :=
  (ofMnemonic? name).elim (.error (.mnemonic name)) .ok

end StackMachine
