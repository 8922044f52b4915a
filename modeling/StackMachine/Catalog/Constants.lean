import StackMachine.Catalog.Fixture
import StackMachine.Decimal.Literal

/-!
# Constant fixtures

Programs that push one constant and return it.
-/

namespace StackMachine.Catalog

/-- Push a constant as a line of assembly says, and return it as a value of a kind. -/
def pushed (suffix : String) (op : Opcode) (operand : String) (k : Kind) : Fixture where
  name := "op_" ++ op.mnemonic ++ suffix
  opcode := op
  code := codeLines [op.mnemonic ++ " " ++ operand, k.initial ++ "return"]

/-- Push a constant that an opcode implies, and return it. -/
def implied (c : SmallConstant) : Fixture :=
  let op := Opcode.constant c
  { name := "op_" ++ op.mnemonic
    opcode := op
    code := codeLines [op.mnemonic, c.value.kind.initial ++ "return"]
    expectation := .returns c.value }

/-- The fixtures about constants. -/
def constants : List Fixture :=
  [implied .null,
   (pushed "" .bipush "127" .int).returns (.int 127),
   (pushed "_negative" .bipush "-128" .int).returns (.int (-128)),
   (pushed "" .sipush "32767" .int).returns (.int 32767),
   (pushed "_negative" .sipush "-32768" .int).returns (.int (-32768))] ++
  (List.finRange 7).map (fun n => implied (.int n)) ++
  (List.finRange 3).map (fun n => implied (.float n)) ++
  (List.finRange 2).map (fun n => implied (.long n)) ++
  (List.finRange 2).map (fun n => implied (.double n)) ++
  [(pushed "_int" .ldc "2147483647" .int).returns (.int 2147483647),
   (pushed "_float" .ldc "3.0f" .float).returns (.float 3.0),
   (pushed "_string" .ldc "\"你好\"" .reference).prints "\"你好\"",
   (pushed "_class" .ldc "class Object" .reference).prints "class Object",
   (pushed "_int" .ldcWide "2147483646" .int).returns (.int 2147483646),
   (pushed "_float" .ldcWide "9.0f" .float).returns (.float 9.0),
   (pushed "_string" .ldcWide "\"世界\"" .reference).prints "\"世界\"",
   (pushed "_class" .ldcWide "class Class" .reference).prints "class Class",
   (pushed "_long" .ldc2 "3L" .long).returns (.long 3),
   (pushed "_double" .ldc2 "3.0d" .double).returns (.double 3.0)]

end StackMachine.Catalog
