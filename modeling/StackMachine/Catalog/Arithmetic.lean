import StackMachine.Catalog.Fixture
import StackMachine.Decimal.Literal

/-!
# Arithmetic fixtures

Programs that apply one arithmetic, shift or bitwise operation to their arguments,
with the boundary cases of each operation.
-/

namespace StackMachine.Catalog

/-- Load two arguments, apply an opcode, and return a result of the first one's kind. -/
def binary (name : String) (op : Opcode) (a b : Value) : Fixture where
  name := name
  opcode := op
  code := codeLines [a.kind.initial ++ "load_0", b.kind.initial ++ "load_1", op.mnemonic,
    a.kind.initial ++ "return"]
  args := [a, b]

/-- Load an argument, apply an opcode, and return a result of its kind. -/
def unary (name : String) (op : Opcode) (a : Value) : Fixture where
  name := name
  opcode := op
  code := codeLines [a.kind.initial ++ "load_0", op.mnemonic, a.kind.initial ++ "return"]
  args := [a]

/-- Add to an int argument, and return it. -/
def increased (name : String) (a : Int32) (delta : String) : Fixture where
  name := name
  opcode := .iinc
  code := codeLines ["iinc 0 " ++ delta, "iload_0", "ireturn"]
  args := [.int a]

/-- The fixtures about arithmetic. -/
def arithmetic : List Fixture :=
  let op (o : Arithmetic) (n : Numeric) := Opcode.arithmetic o n
  let least := Int32.minValue
  let greatest := Int32.maxValue
  let leastLong := Int64.minValue
  let greatestLong := Int64.maxValue
  [(binary "op_iadd" (op .add .int) (.int 5) (.int (-1024))).returns (.int (-1019)),
   (binary "op_iadd_overflow" (op .add .int) (.int greatest) (.int 1)).returns (.int least),
   (binary "op_ladd" (op .add .long) (.long 6666) (.long 5678)).returns (.long 12344),
   (binary "op_ladd_overflow" (op .add .long) (.long greatestLong) (.long 1)).returns
     (.long leastLong),
   (binary "op_fadd" (op .add .float) (.float 1.5) (.float 2.25)).returns (.float 3.75),
   (binary "op_dadd" (op .add .double) (.double 0.1) (.double 0.2)).returns
     (.double (Binary.add 0.1 0.2)),
   (binary "op_isub" (op .sub .int) (.int 3) (.int 1027)).returns (.int (-1024)),
   (binary "op_isub_overflow" (op .sub .int) (.int least) (.int 1)).returns (.int greatest),
   (binary "op_lsub" (op .sub .long) (.long 0) (.long leastLong)).returns (.long leastLong),
   (binary "op_fsub" (op .sub .float) (.float 1.0) (.float 1.0)).returns (.float 0.0),
   (binary "op_dsub" (op .sub .double) (.double (-0.0)) (.double 0.0)).returns (.double (-0.0)),
   (binary "op_imul" (op .mul .int) (.int 0x10000) (.int 0x10000)).returns (.int 0),
   (binary "op_lmul" (op .mul .long) (.long 10491438) (.long 6666)).returns (.long 69935925708),
   (binary "op_fmul" (op .mul .float) (.float (.infinity false)) (.float 0.0)).prints "NaNf",
   (binary "op_dmul" (op .mul .double) (.double 1e308) (.double 10.0)).returns
     (.double (.infinity false)),
   (binary "op_idiv" (op .div .int) (.int 7) (.int (-2))).returns (.int (-3)),
   (binary "op_idiv_min_by_minus_one" (op .div .int) (.int least) (.int (-1))).returns
     (.int least),
   (binary "op_idiv_by_zero" (op .div .int) (.int 1) (.int 0)).faults "divide by zero",
   (binary "op_ldiv" (op .div .long) (.long (-7)) (.long 2)).returns (.long (-3)),
   (binary "op_ldiv_by_zero" (op .div .long) (.long 1) (.long 0)).faults "divide by zero",
   (binary "op_fdiv" (op .div .float) (.float 1.0) (.float 0.0)).returns
     (.float (.infinity false)),
   (binary "op_ddiv" (op .div .double) (.double (-1.0)) (.double 0.0)).returns
     (.double (.infinity true)),
   (binary "op_ddiv_zero_by_zero" (op .div .double) (.double 0.0) (.double 0.0)).prints "NaNd",
   (binary "op_irem" (op .rem .int) (.int 7) (.int (-2))).returns (.int 1),
   (binary "op_irem_negative_dividend" (op .rem .int) (.int (-7)) (.int 2)).returns (.int (-1)),
   (binary "op_irem_by_zero" (op .rem .int) (.int 1) (.int 0)).faults "divide by zero",
   (binary "op_lrem" (op .rem .long) (.long leastLong) (.long (-1))).returns (.long 0),
   (binary "op_frem" (op .rem .float) (.float 5.5) (.float 2.0)).returns (.float 1.5),
   (binary "op_drem" (op .rem .double) (.double (-5.5)) (.double 2.0)).returns (.double (-1.5)),
   (binary "op_drem_by_zero" (op .rem .double) (.double 1.0) (.double 0.0)).prints "NaNd",
   (unary "op_ineg" (.negate .int) (.int least)).returns (.int least),
   (unary "op_lneg" (.negate .long) (.long 5)).returns (.long (-5)),
   (unary "op_fneg" (.negate .float) (.float 0.0)).returns (.float (-0.0)),
   (unary "op_dneg" (.negate .double) (.double (-1.5))).returns (.double 1.5),
   (binary "op_ishl" (.shift .left .int) (.int 1) (.int 33)).returns (.int 2),
   (binary "op_lshl" (.shift .left .long) (.long 1) (.int 65)).returns (.long 2),
   (binary "op_ishr" (.shift .right .int) (.int (-16)) (.int 2)).returns (.int (-4)),
   (binary "op_lshr" (.shift .right .long) (.long leastLong) (.int 63)).returns (.long (-1)),
   (binary "op_iushr" (.shift .unsignedRight .int) (.int (-1)) (.int 28)).returns (.int 15),
   (binary "op_lushr" (.shift .unsignedRight .long) (.long (-1)) (.int 60)).returns (.long 15),
   (binary "op_iand" (.bitwise .and .int) (.int 0b1100) (.int 0b1010)).returns (.int 0b1000),
   (binary "op_land" (.bitwise .and .long) (.long (-1)) (.long 0xff)).returns (.long 0xff),
   (binary "op_ior" (.bitwise .or .int) (.int 0b1100) (.int 0b1010)).returns (.int 0b1110),
   (binary "op_lor" (.bitwise .or .long) (.long leastLong) (.long 1)).returns
     (.long (leastLong + 1)),
   (binary "op_ixor" (.bitwise .xor .int) (.int (-1)) (.int 0x0f0f)).returns (.int (-0x0f10)),
   (binary "op_lxor" (.bitwise .xor .long) (.long 0x55) (.long 0xff)).returns (.long 0xaa),
   (increased "op_iinc" 41 "1").returns (.int 42),
   (increased "op_iinc_wraps" greatest "1").returns (.int least),
   (increased "op_iinc_negative" 0 "-300").returns (.int (-300))]

end StackMachine.Catalog
