import StackMachine.Catalog.Fixture
import StackMachine.Decimal.Literal

/-!
# Branch fixtures

Programs that compare their arguments and branch over the first of two arms. The
first arm returns 0 and the second 1024, or 1 and 0 where references are compared.
-/

namespace StackMachine.Catalog

/-- Fall through to return 0, branch to return 1024. -/
def arms : List String := ["iconst_0", "ireturn", "sipush 1024", "ireturn"]

/-- Fall through to return 1, branch to return 0. -/
def identityArms : List String := ["iconst_1", "ireturn", "iconst_0", "ireturn"]

/-- Compare two ints. -/
def intPair (c : Condition) (a b : Int32) : Fixture :=
  let op := Opcode.ifInt c
  { name := "op_" ++ op.mnemonic ++ "_" ++ Numeral.intText a.toInt ++ "_" ++
      Numeral.intText b.toInt
    opcode := op
    code := codeLines (["iload_0", "iload_1", op.mnemonic ++ " +3"] ++ arms)
    args := [.int a, .int b] }

/-- Compare an int to zero. -/
def intZero (c : Condition) (a : Int32) : Fixture :=
  let op := Opcode.ifZero c
  { name := "op_" ++ op.mnemonic ++ "_" ++ Numeral.intText a.toInt
    opcode := op
    code := codeLines (["iload_0", op.mnemonic ++ " +3"] ++ arms)
    args := [.int a] }

/-- Compare two numbers to an int, and that int to zero. -/
def threeWay (name : String) (comparison : ThreeWay) (branch : Condition) (a b : Value) :
    Fixture :=
  let op := Opcode.compare comparison
  let x := a.kind.initial
  { name := name
    opcode := op
    code := codeLines ([x ++ "load_0", x ++ "load_1", op.mnemonic,
      (Opcode.ifZero branch).mnemonic ++ " +3"] ++ arms)
    args := [a, b] }

/-- Compare two references to objects on a heap. -/
def identity (name : String) (expected : Bool) (h : Heap) (a b : Reference) : Fixture :=
  let op := Opcode.ifSame expected
  { name := name
    opcode := op
    code := codeLines (["aload_0", "aload_1", op.mnemonic ++ " +3"] ++ identityArms)
    heap := h
    args := [.reference a, .reference b] }

/-- Compare a reference to null. -/
def nullTest (name : String) (expected : Bool) (h : Heap) (a : Reference) : Fixture :=
  let op := Opcode.ifNull expected
  { name := name
    opcode := op
    code := codeLines (["aload_0", op.mnemonic ++ " +3"] ++ identityArms)
    heap := h
    args := [.reference a] }

/-- The fixtures about comparisons and branches. -/
def branches : List Fixture :=
  let first := Reference.to 0
  let second := Reference.to 1
  let greeting : Heap := ⟨#[.string "你好"]⟩
  let greetings : Heap := ⟨#[.string "你好", .string "你好"]⟩
  let zero := Value.int 0
  let one := Value.int 1
  let taken := Value.int 1024
  let single (x : Single) := Value.float x
  let double (x : Double) := Value.double x
  [(intPair .eq 3 3).returns taken,
   (intPair .eq 3 4).returns zero,
   (intPair .ne 3 4).returns taken,
   (intPair .ne 3 3).returns zero,
   (intPair .lt (-1) 0).returns taken,
   (intPair .lt 0 0).returns zero,
   (intPair .ge 0 0).returns taken,
   (intPair .ge (-1) 0).returns zero,
   (intPair .gt 1 0).returns taken,
   (intPair .gt 0 0).returns zero,
   (intPair .le 0 0).returns taken,
   (intPair .le 1 0).returns zero,
   (intZero .eq 0).returns taken,
   (intZero .eq 7).returns zero,
   (intZero .ne 7).returns taken,
   (intZero .ne 0).returns zero,
   (intZero .gt 1).returns taken,
   (intZero .gt 0).returns zero,
   (intZero .ge 0).returns taken,
   (intZero .ge (-1)).returns zero,
   (intZero .lt (-1)).returns taken,
   (intZero .lt 0).returns zero,
   (intZero .le 0).returns taken,
   (intZero .le 1).returns zero,
   (threeWay "op_lcmp_less" .long .ge (.long 1) (.long 2)).returns zero,
   (threeWay "op_lcmp_equal" .long .ge (.long 2) (.long 2)).returns taken,
   (threeWay "op_lcmp_greater" .long .ge (.long Int64.maxValue) (.long Int64.minValue)).returns
     taken,
   (threeWay "op_fcmpg" (.float .greater) .ge (single 1.0) (single 2.0)).returns zero,
   (threeWay "op_fcmpg_nan" (.float .greater) .ge (single .nan) (single 2.0)).returns taken,
   (threeWay "op_fcmpl" (.float .less) .le (single 2.0) (single 1.0)).returns zero,
   (threeWay "op_fcmpl_nan" (.float .less) .le (single 2.0) (single .nan)).returns taken,
   (threeWay "op_dcmpg_nan" (.double .greater) .ge (double .nan) (double 0.0)).returns taken,
   (threeWay "op_dcmpl_nan" (.double .less) .le (double 0.0) (double .nan)).returns taken,
   (threeWay "op_dcmpl_zeros" (.double .less) .le (double 0.0) (double (-0.0))).returns taken,
   (identity "op_if_acmpeq_same" true greeting first first).returns zero,
   (identity "op_if_acmpeq_equal_text" true greetings first second).returns one,
   (identity "op_if_acmpne_same" false greeting first first).returns one,
   (identity "op_if_acmpne_null" false greeting .null first).returns zero,
   (nullTest "op_ifnonnull" false .empty .null).returns one,
   (nullTest "op_ifnull" true ⟨#[.string "x"]⟩ first).returns one]

end StackMachine.Catalog
