import StackMachine.Kind

/-!
# Opcodes

The instruction set, grouped into families: an opcode is a family together with
the kind, slot, operation or condition that tells its members apart. Each opcode
has a mnemonic, a byte code and the shape of the operand that it takes.
-/

namespace StackMachine

/-- The shape of the operand that an opcode takes in assembly text. -/
inductive Shape where
  /-- No operand. -/
  | none
  /-- The index of a local slot. -/
  | slot
  /-- A signed byte. -/
  | byte
  /-- A signed 16-bit number. -/
  | short
  /-- A constant of a kind that is not wide. -/
  | constant
  /-- A constant of a wide kind. -/
  | wideConstant
  /-- The index of a local slot and a signed 16-bit number. -/
  | increment
  /-- A signed distance in instructions. -/
  | branch
  /-- An element kind. -/
  | elementKind
  /-- The name and descriptor of a static field. -/
  | field
  /-- The name and descriptor of a static method. -/
  | method
deriving DecidableEq, Repr

/-- A constant that has an opcode of its own. -/
inductive SmallConstant where
  /-- The null reference. -/
  | null
  /-- An int from minus one to five, counted from minus one. -/
  | int (n : Fin 7)
  /-- The long zero or one. -/
  | long (n : Fin 2)
  /-- The float zero, one or two. -/
  | float (n : Fin 3)
  /-- The double zero or one. -/
  | double (n : Fin 2)
deriving DecidableEq, Repr

/-- The arithmetic operations that exist for every numeric kind. -/
inductive Arithmetic where
  | add
  | sub
  | mul
  | div
  | rem
deriving DecidableEq, Repr

/-- The directions of a shift; the last fills with zeros from the left. -/
inductive Shift where
  | left
  | right
  | unsignedRight
deriving DecidableEq, Repr

/-- The bitwise operations. -/
inductive Bitwise where
  | and
  | or
  | xor
deriving DecidableEq, Repr

/-- The conversions between kinds, and the narrowings of an int to the range of a
byte, a char or a short. -/
inductive Conversion where
  | i2l
  | i2f
  | i2d
  | l2i
  | l2f
  | l2d
  | f2i
  | f2l
  | f2d
  | d2i
  | d2l
  | d2f
  | i2b
  | i2c
  | i2s
deriving DecidableEq, Repr

/-- What a comparison reports when an operand is a NaN. -/
inductive Unordered where
  | less
  | greater
deriving DecidableEq, Repr

/-- The comparisons whose result is an int: minus one, zero or one. Those of
floating-point numbers come in two variants, one for each report on NaNs. -/
inductive ThreeWay where
  | long
  | float (unordered : Unordered)
  | double (unordered : Unordered)
deriving DecidableEq, Repr

/-- A condition on an ordering. -/
inductive Condition where
  | eq
  | ne
  | lt
  | ge
  | gt
  | le
deriving DecidableEq, Repr

/-- An opcode of the instruction set. -/
inductive Opcode where
  /-- Push a constant that the opcode implies. -/
  | constant (c : SmallConstant)
  /-- Push the signed byte in the operand. -/
  | bipush
  /-- Push the signed 16-bit number in the operand. -/
  | sipush
  /-- Push the constant in the operand. -/
  | ldc
  /-- Push the constant in the operand, as `ldc` does. -/
  | ldcWide
  /-- Push the wide constant in the operand. -/
  | ldc2
  /-- Push a local slot: the given one, or the one in the operand. -/
  | load (kind : Kind) (slot : Option (Fin 4))
  /-- Pop into a local slot: the given one, or the one in the operand. -/
  | store (kind : Kind) (slot : Option (Fin 4))
  /-- Pop an index and an array, and push the element. -/
  | arrayLoad (kind : ElementKind)
  /-- Pop a value, an index and an array, and replace the element. -/
  | arrayStore (kind : ElementKind)
  /-- Drop the top of the stack. -/
  | pop
  /-- Push the top of the stack again. -/
  | dup
  /-- Exchange the two topmost values. -/
  | swap
  /-- Pop two numbers and push the result. -/
  | arithmetic (operation : Arithmetic) (kind : Numeric)
  /-- Pop a number and push its opposite. -/
  | negate (kind : Numeric)
  /-- Pop an int amount and a number, and push the shifted number. -/
  | shift (direction : Shift) (kind : Integral)
  /-- Pop two numbers and push the result. -/
  | bitwise (operation : Bitwise) (kind : Integral)
  /-- Add the number in the operand to the int in a local slot. -/
  | iinc
  /-- Pop a number and push the converted one. -/
  | convert (conversion : Conversion)
  /-- Pop two numbers and push how they compare. -/
  | compare (comparison : ThreeWay)
  /-- Pop an int and branch if it compares to zero as the condition says. -/
  | ifZero (condition : Condition)
  /-- Pop two ints and branch if they compare as the condition says. -/
  | ifInt (condition : Condition)
  /-- Pop two references and branch if they are identical, or if they are not. -/
  | ifSame (expected : Bool)
  /-- Pop a value and return it. -/
  | returnValue (kind : Kind)
  /-- Return without a value. -/
  | returnVoid
  /-- Push a static field. -/
  | getstatic
  /-- Pop into a static field. -/
  | putstatic
  /-- Pop the arguments of a static method and call it. -/
  | invokestatic
  /-- Pop a length and push a new array of a primitive element kind. -/
  | newarray
  /-- Pop a length and push a new array of references. -/
  | anewarray
  /-- Pop an array and push its length. -/
  | arraylength
  /-- Pop a reference and branch if it is null, or if it is not. -/
  | ifNull (expected : Bool)
deriving DecidableEq, Repr

namespace SmallConstant

/-- Every small constant, in the order of the byte codes. -/
def all : List SmallConstant :=
  [.null] ++ (List.finRange 7).map .int ++ (List.finRange 2).map .long ++
    (List.finRange 3).map .float ++ (List.finRange 2).map .double

/-- The mnemonic of the opcode that pushes a small constant. -/
def mnemonic : SmallConstant → String
  | null => "aconst_null"
  | int 0 => "iconst_m1"
  | int n => "iconst_" ++ String.ofList (Nat.toDigits 10 (n.val - 1))
  | long n => "lconst_" ++ String.ofList (Nat.toDigits 10 n.val)
  | float n => "fconst_" ++ String.ofList (Nat.toDigits 10 n.val)
  | double n => "dconst_" ++ String.ofList (Nat.toDigits 10 n.val)

/-- The byte code of the opcode that pushes a small constant. -/
def code : SmallConstant → Nat
  | null => 0x01
  | int n => 0x02 + n.val
  | long n => 0x09 + n.val
  | float n => 0x0b + n.val
  | double n => 0x0e + n.val

end SmallConstant

namespace Arithmetic

/-- Every arithmetic operation. -/
def all : List Arithmetic := [.add, .sub, .mul, .div, .rem]

/-- The name of an operation, as it stands in mnemonics. -/
def name : Arithmetic → String
  | add => "add"
  | sub => "sub"
  | mul => "mul"
  | div => "div"
  | rem => "rem"

end Arithmetic

namespace Shift

/-- Every shift. -/
def all : List Shift := [.left, .right, .unsignedRight]

/-- The name of a shift, as it stands in mnemonics. -/
def name : Shift → String
  | left => "shl"
  | right => "shr"
  | unsignedRight => "ushr"

end Shift

namespace Bitwise

/-- Every bitwise operation. -/
def all : List Bitwise := [.and, .or, .xor]

/-- The name of an operation, as it stands in mnemonics. -/
def name : Bitwise → String
  | and => "and"
  | or => "or"
  | xor => "xor"

end Bitwise

namespace Conversion

/-- Every conversion, in the order of the byte codes. -/
def all : List Conversion :=
  [.i2l, .i2f, .i2d, .l2i, .l2f, .l2d, .f2i, .f2l, .f2d, .d2i, .d2l, .d2f, .i2b, .i2c, .i2s]

/-- The mnemonic of the opcode of a conversion. -/
def mnemonic : Conversion → String
  | i2l => "i2l"
  | i2f => "i2f"
  | i2d => "i2d"
  | l2i => "l2i"
  | l2f => "l2f"
  | l2d => "l2d"
  | f2i => "f2i"
  | f2l => "f2l"
  | f2d => "f2d"
  | d2i => "d2i"
  | d2l => "d2l"
  | d2f => "d2f"
  | i2b => "i2b"
  | i2c => "i2c"
  | i2s => "i2s"

end Conversion

namespace Unordered

/-- The ordering that is reported. -/
def ordering : Unordered → Ordering
  | less => .lt
  | greater => .gt

end Unordered

namespace ThreeWay

/-- Every comparison, in the order of the byte codes. -/
def all : List ThreeWay :=
  [.long, .float .less, .float .greater, .double .less, .double .greater]

/-- The mnemonic of the opcode of a comparison. -/
def mnemonic : ThreeWay → String
  | long => "lcmp"
  | float .less => "fcmpl"
  | float .greater => "fcmpg"
  | double .less => "dcmpl"
  | double .greater => "dcmpg"

end ThreeWay

namespace Condition

/-- Every condition, in the order of the byte codes. -/
def all : List Condition := [.eq, .ne, .lt, .ge, .gt, .le]

/-- The name of a condition, as it stands in mnemonics. -/
def name : Condition → String
  | eq => "eq"
  | ne => "ne"
  | lt => "lt"
  | ge => "ge"
  | gt => "gt"
  | le => "le"

end Condition

namespace Opcode

/-- The element kinds in the order in which array opcodes enumerate them. -/
def arrayKinds : List ElementKind :=
  [.int, .long, .float, .double, .reference, .byte, .char, .short]

/-- The slots that loads and stores can imply. -/
def impliedSlots : List (Option (Fin 4)) := (List.finRange 4).map some

/-- Every opcode, in the order of the byte codes. -/
def all : List Opcode :=
  SmallConstant.all.map .constant ++ [.bipush, .sipush, .ldc, .ldcWide, .ldc2] ++
  Kind.all.map (load · none) ++
  Kind.all.flatMap (fun k => impliedSlots.map (load k)) ++
  arrayKinds.map .arrayLoad ++
  Kind.all.map (store · none) ++
  Kind.all.flatMap (fun k => impliedSlots.map (store k)) ++
  arrayKinds.map .arrayStore ++
  [.pop, .dup, .swap] ++
  Arithmetic.all.flatMap (fun o => Numeric.all.map (arithmetic o)) ++
  Numeric.all.map .negate ++
  Shift.all.flatMap (fun d => Integral.all.map (shift d)) ++
  Bitwise.all.flatMap (fun o => Integral.all.map (bitwise o)) ++
  [.iinc] ++
  Conversion.all.map .convert ++
  ThreeWay.all.map .compare ++
  Condition.all.map .ifZero ++
  Condition.all.map .ifInt ++
  [.ifSame true, .ifSame false] ++
  Kind.all.map .returnValue ++
  [.returnVoid, .getstatic, .putstatic, .invokestatic, .newarray, .anewarray, .arraylength,
    .ifNull true, .ifNull false]

/-- The end of the mnemonic of a load or a store. -/
def slotSuffix : Option (Fin 4) → String
  | none => ""
  | some n => "_" ++ String.ofList (Nat.toDigits 10 n.val)

/-- The name of an opcode in assembly text and in messages. -/
def mnemonic : Opcode → String
  | constant c => c.mnemonic
  | bipush => "bipush"
  | sipush => "sipush"
  | ldc => "ldc"
  | ldcWide => "ldc_w"
  | ldc2 => "ldc2_w"
  | load k slot => k.initial ++ "load" ++ slotSuffix slot
  | store k slot => k.initial ++ "store" ++ slotSuffix slot
  | arrayLoad k => k.initial ++ "aload"
  | arrayStore k => k.initial ++ "astore"
  | pop => "pop"
  | dup => "dup"
  | swap => "swap"
  | arithmetic o n => n.kind.initial ++ o.name
  | negate n => n.kind.initial ++ "neg"
  | shift d n => n.kind.initial ++ d.name
  | bitwise o n => n.kind.initial ++ o.name
  | iinc => "iinc"
  | convert c => c.mnemonic
  | compare c => c.mnemonic
  | ifZero c => "if" ++ c.name
  | ifInt c => "if_icmp" ++ c.name
  | ifSame true => "if_acmpeq"
  | ifSame false => "if_acmpne"
  | returnValue k => k.initial ++ "return"
  | returnVoid => "return"
  | getstatic => "getstatic"
  | putstatic => "putstatic"
  | invokestatic => "invokestatic"
  | newarray => "newarray"
  | anewarray => "anewarray"
  | arraylength => "arraylength"
  | ifNull true => "ifnull"
  | ifNull false => "ifnonnull"

/-- The byte that stands for an opcode in compiled code. Families take consecutive
codes, in the order in which their parameters are enumerated. -/
def code : Opcode → Nat
  | constant c => c.code
  | bipush => 0x10
  | sipush => 0x11
  | ldc => 0x12
  | ldcWide => 0x13
  | ldc2 => 0x14
  | load k none => 0x15 + k.ctorIdx
  | load k (some n) => 0x1a + 4 * k.ctorIdx + n.val
  | arrayLoad k => 0x2e + arrayKinds.idxOf k
  | store k none => 0x36 + k.ctorIdx
  | store k (some n) => 0x3b + 4 * k.ctorIdx + n.val
  | arrayStore k => 0x4f + arrayKinds.idxOf k
  | pop => 0x57
  | dup => 0x59
  | swap => 0x5f
  | arithmetic o n => 0x60 + 4 * o.ctorIdx + n.ctorIdx
  | negate n => 0x74 + n.ctorIdx
  | shift d n => 0x78 + 2 * d.ctorIdx + n.ctorIdx
  | bitwise o n => 0x7e + 2 * o.ctorIdx + n.ctorIdx
  | iinc => 0x84
  | convert c => 0x85 + c.ctorIdx
  | compare c => 0x94 + ThreeWay.all.idxOf c
  | ifZero c => 0x99 + c.ctorIdx
  | ifInt c => 0x9f + c.ctorIdx
  | ifSame true => 0xa5
  | ifSame false => 0xa6
  | returnValue k => 0xac + k.ctorIdx
  | returnVoid => 0xb1
  | getstatic => 0xb2
  | putstatic => 0xb3
  | invokestatic => 0xb8
  | newarray => 0xbc
  | anewarray => 0xbd
  | arraylength => 0xbe
  | ifNull true => 0xc6
  | ifNull false => 0xc7

/-- The shape of the operand that an opcode takes. -/
def shape : Opcode → Shape
  | bipush => .byte
  | sipush => .short
  | ldc | ldcWide => .constant
  | ldc2 => .wideConstant
  | load _ none | store _ none => .slot
  | iinc => .increment
  | ifZero _ | ifInt _ | ifSame _ | ifNull _ => .branch
  | getstatic | putstatic => .field
  | invokestatic => .method
  | newarray => .elementKind
  | _ => .none

/-- The opcode with a given mnemonic. -/
def ofMnemonic? (s : String) : Option Opcode := all.find? (·.mnemonic = s)

end Opcode

end StackMachine
