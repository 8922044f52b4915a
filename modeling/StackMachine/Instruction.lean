import StackMachine.Descriptor
import StackMachine.Opcode
import StackMachine.Text.Numeral
import StackMachine.Value

/-!
# Instructions

An instruction is an opcode with an operand. The operand is not bound to the
shape that the opcode takes: reading assembly produces matching operands only,
and executing an instruction checks the operand again. Instructions are generic
in their constants, which are literals in assembly and values in a block.
-/

namespace StackMachine

/-- A static field as an instruction names it. -/
structure FieldRef where
  /-- The name of the field. -/
  name : String
  /-- The kind that the instruction expects of it. -/
  kind : Kind
deriving DecidableEq, Repr

/-- A static method as an instruction names it. -/
structure MethodRef where
  /-- The name of the method. -/
  name : String
  /-- The kinds of the arguments. -/
  params : List Kind
  /-- The kind of the result, if there is one. -/
  result : Option Kind
deriving DecidableEq, Repr

/-- The canonical descriptor of a method. -/
def MethodRef.descriptor (m : MethodRef) : String := Descriptor.ofMethod m.params m.result

/-- An operand, with constants from `α`. -/
inductive Operand (α : Type) where
  | none
  | slot (index : UInt16)
  | immediate (n : Int32)
  | constant (c : α)
  | increment (index : UInt16) (delta : Int16)
  | branch (offset : Int16)
  | elementKind (k : ElementKind)
  | field (f : FieldRef)
  | method (m : MethodRef)
deriving DecidableEq

/-- An instruction, with constants from `α`. -/
structure Instruction (α : Type) where
  /-- What to do. -/
  opcode : Opcode
  /-- What to do it with. -/
  operand : Operand α
deriving DecidableEq

namespace Operand

variable {α β : Type}

/-- Change the constant of an operand. -/
def map (f : α → β) : Operand α → Operand β
  | none => none
  | slot i => slot i
  | immediate n => immediate n
  | constant c => constant (f c)
  | increment i d => increment i d
  | branch o => branch o
  | elementKind k => elementKind k
  | field r => field r
  | method r => method r

/-- The words of an operand in assembly text, given those of the constants. -/
def words (constant : α → String) : Operand α → List String
  | none => []
  | slot i => [Numeral.natText i.toNat]
  | immediate n => [Numeral.intText n.toInt]
  | .constant c => [constant c]
  | increment i d => [Numeral.natText i.toNat, Numeral.intText d.toInt]
  | branch o => [Numeral.signedText o.toInt]
  | elementKind k => [k.name]
  | field f => [f.name, Descriptor.ofKind f.kind]
  | method m => [m.name, m.descriptor]

end Operand

namespace Instruction

variable {α β : Type}

/-- Change the constant of an instruction. -/
def map (f : α → β) (i : Instruction α) : Instruction β := ⟨i.opcode, i.operand.map f⟩

/-- The text of an instruction, given that of the constants. -/
def text (constant : α → String) (i : Instruction α) : String :=
  " ".intercalate (i.opcode.mnemonic :: i.operand.words constant)

end Instruction

/-- A sequence of instructions that can be executed. -/
abbrev Block := List (Instruction Value)

end StackMachine
