import StackMachine.Catalog.Fixture

/-!
# Field and call fixtures

Programs that read and write static fields, which are defined before the program
runs, and programs that call methods.
-/

namespace StackMachine.Catalog

/-- The method that computes `(10 · p · 1024 + q) · z` from its arguments `z`, `p`, `q`. -/
def fooMethod : String :=
  codeLines ["bipush 10", "iload_1", "imul", "istore_3", "iload_3", "sipush 1024", "imul", "i2l",
    "lload_2", "ladd", "lstore 4", "lload 4", "lload_0", "lmul", "lreturn"]

/-- The program that calls the method with 6666, 1024 and 5678, multiplies its result
by ten and adds five. -/
def fooCaller : String :=
  codeLines ["iconst_5", "istore_0", "sipush 6666", "i2l", "sipush 1024", "sipush 5678", "i2l",
    "invokestatic foo (JIJ)J", "lstore_1", "lload_1", "ldc2_w 10L", "lmul", "iload_0", "i2l",
    "ladd", "lreturn"]

/-- The fixtures about static fields and calls. -/
def fields : List Fixture :=
  [Fixture.leaves
    { name := "op_clinit"
      opcode := .putstatic
      code := codeLines ["bipush 100", "putstatic i I", "getstatic i I", "bipush 10", "imul",
        "putstatic i I", "return"]
      statics := [("i", .int 0)] }
    "i" (.int 1000),
   Fixture.returns
    { name := "op_getstatic"
      opcode := .getstatic
      code := codeLines ["getstatic i I", "ireturn"]
      statics := [("i", .int 1000)] }
    (.int 1000),
   Fixture.returns
    { name := "op_putstatic"
      opcode := .putstatic
      code := codeLines ["iconst_2", "putstatic i I", "getstatic i I", "ireturn"]
      statics := [("i", .int 1000)] }
    (.int 2),
   Fixture.returns
    { name := "op_getstatic_long"
      opcode := .getstatic
      code := codeLines ["getstatic l J", "lreturn"]
      statics := [("l", .long Int64.minValue)] }
    (.long Int64.minValue),
   Fixture.returns
    { name := "op_invokestatic"
      opcode := .invokestatic
      code := fooCaller
      methods := [("foo", fooMethod)] }
    (.long 699359257085),
   Fixture.returns
    { name := "op_invokestatic_void"
      opcode := .invokestatic
      code := codeLines ["invokestatic reset ()V", "getstatic i I", "ireturn"]
      methods := [("reset", codeLines ["iconst_0", "putstatic i I", "return"])]
      statics := [("i", .int 7)] }
    (.int 0),
   Fixture.faults
    { name := "op_getstatic_unknown"
      opcode := .getstatic
      code := codeLines ["getstatic j I", "ireturn"] }
    "unknown static field 'j'",
   Fixture.faults
    { name := "op_putstatic_wrong_kind"
      opcode := .putstatic
      code := codeLines ["lconst_1", "putstatic i J", "return"]
      statics := [("i", .int 0)] }
    "static field 'i' is int, not long"]

end StackMachine.Catalog
