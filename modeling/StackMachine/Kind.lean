/-!
# Kinds

Every value on the operand stack, in a local slot or in a static field has one
of five kinds. Array elements have eight: the three narrow integer kinds exist
only inside arrays and are widened to `int` when they are read.
-/

namespace StackMachine

/-- The kind of a value on the stack, in a local slot or in a static field. -/
inductive Kind where
  | int
  | long
  | float
  | double
  | reference
deriving DecidableEq, Repr

namespace Kind

/-- Every kind, in the order in which opcode families enumerate them. -/
def all : List Kind := [.int, .long, .float, .double, .reference]

theorem mem_all (k : Kind) : k ∈ all := by cases k <;> decide

/-- The name of a kind in messages. -/
def name : Kind → String
  | int => "int"
  | long => "long"
  | float => "float"
  | double => "double"
  | reference => "reference"

/-- The letter that stands for a kind in descriptors. -/
def letter : Kind → Char
  | int => 'I'
  | long => 'J'
  | float => 'F'
  | double => 'D'
  | reference => 'L'

/-- The letter with which the mnemonics of a kind's opcodes begin. -/
def initial : Kind → String
  | int => "i"
  | long => "l"
  | float => "f"
  | double => "d"
  | reference => "a"

/-- The kind of the values whose descriptor begins with a letter. The narrow
integers and booleans are carried as `int`, arrays as `reference`. -/
def ofLetter? : Char → Option Kind
  | 'I' | 'B' | 'S' | 'C' | 'Z' => some int
  | 'J' => some long
  | 'F' => some float
  | 'D' => some double
  | 'L' | '[' => some reference
  | _ => none

/-- A kind is found by its letter. -/
theorem ofLetter?_letter (k : Kind) : ofLetter? k.letter = some k := by cases k <;> rfl

/-- A wide kind takes two words, and has its own constant-loading opcode. -/
def isWide : Kind → Bool
  | long | double => true
  | int | float | reference => false

end Kind

/-- The kind of the elements of an array. -/
inductive ElementKind where
  | byte
  | short
  | char
  | int
  | long
  | float
  | double
  | reference
deriving DecidableEq, Repr

namespace ElementKind

/-- Every element kind. -/
def all : List ElementKind := [.byte, .short, .char, .int, .long, .float, .double, .reference]

theorem mem_all (k : ElementKind) : k ∈ all := by cases k <;> decide

/-- The name of an element kind in assembly text and in messages. -/
def name : ElementKind → String
  | byte => "byte"
  | short => "short"
  | char => "char"
  | int => "int"
  | long => "long"
  | float => "float"
  | double => "double"
  | reference => "reference"

/-- The element kind with a given name. -/
def ofName? (s : String) : Option ElementKind := all.find? (·.name = s)

/-- The kind that an element has once it is read onto the stack. -/
def valueKind : ElementKind → Kind
  | byte | short | char | int => .int
  | long => .long
  | float => .float
  | double => .double
  | reference => .reference

/-- The number that stands for a primitive element kind in `newarray`. Arrays of
references have an opcode of their own and no number. -/
def typeCode? : ElementKind → Option Nat
  | char => some 5
  | float => some 6
  | double => some 7
  | byte => some 8
  | short => some 9
  | int => some 10
  | long => some 11
  | reference => none

/-- The element kind with a given type code. -/
def ofTypeCode? : Nat → Option ElementKind
  | 5 => some char
  | 6 => some float
  | 7 => some double
  | 8 => some byte
  | 9 => some short
  | 10 => some int
  | 11 => some long
  | _ => none

/-- The letter with which the mnemonics of an element kind's opcodes begin. -/
def initial : ElementKind → String
  | byte => "b"
  | short => "s"
  | char => "c"
  | int => "i"
  | long => "l"
  | float => "f"
  | double => "d"
  | reference => "a"

theorem ofName?_name (k : ElementKind) : ofName? k.name = some k := by cases k <;> decide

/-- Type codes and primitive element kinds are in bijection. -/
theorem ofTypeCode?_eq_some_iff {n : Nat} {k : ElementKind} :
    ofTypeCode? n = some k ↔ k.typeCode? = some n := by
  constructor
  · unfold ofTypeCode?
    split <;> simp <;> rintro rfl <;> rfl
  · cases k <;> simp [typeCode?] <;> rintro rfl <;> rfl

end ElementKind

/-- The kinds that arithmetic works on. -/
inductive Numeric where
  | int
  | long
  | float
  | double
deriving DecidableEq, Repr

namespace Numeric

/-- Every numeric kind. -/
def all : List Numeric := [.int, .long, .float, .double]

theorem mem_all (n : Numeric) : n ∈ all := by cases n <;> decide

/-- The kind of the values of a numeric kind. -/
def kind : Numeric → Kind
  | int => .int
  | long => .long
  | float => .float
  | double => .double

end Numeric

/-- The kinds that shifts and bitwise operations work on. -/
inductive Integral where
  | int
  | long
deriving DecidableEq, Repr

namespace Integral

/-- Every integral kind. -/
def all : List Integral := [.int, .long]

theorem mem_all (n : Integral) : n ∈ all := by cases n <;> decide

/-- The kind of the values of an integral kind. -/
def kind : Integral → Kind
  | int => .int
  | long => .long

end Integral

end StackMachine
