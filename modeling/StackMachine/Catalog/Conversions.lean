import StackMachine.Catalog.Fixture
import StackMachine.Decimal.Literal

/-!
# Conversion fixtures

Programs that convert a constant: the greatest int and long, an ordinary fraction,
NaN, both infinities, and ints whose low bits are told apart by narrowing.
-/

namespace StackMachine.Catalog

/-- Push a constant, pass it through a slot, convert it, and return the result. -/
def converted (suffix : String) (c : Conversion) (source : Literal) : Fixture :=
  let op := Opcode.convert c
  let x := source.kind.initial
  let load := if source.kind.isWide then Opcode.ldc2 else Opcode.ldc
  { name := "op_" ++ op.mnemonic ++ suffix
    opcode := op
    code := codeLines [load.mnemonic ++ " " ++ source.text, x ++ "store_1", x ++ "load_1",
      op.mnemonic, c.target.kind.initial ++ "return"] }

/-- What the conversions of a special float give. -/
def specialFloats : List Fixture :=
  let nan := Literal.float .nan
  let most := Literal.float (.infinity false)
  let least := Literal.float (.infinity true)
  [(converted "_nan" .f2i nan).returns (.int 0),
   (converted "_nan" .f2l nan).returns (.long 0),
   (converted "_nan" .f2d nan).prints "NaNd",
   (converted "_inf_pos" .f2i most).returns (.int Int32.maxValue),
   (converted "_inf_pos" .f2l most).returns (.long Int64.maxValue),
   (converted "_inf_pos" .f2d most).returns (.double (.infinity false)),
   (converted "_inf_neg" .f2i least).returns (.int Int32.minValue),
   (converted "_inf_neg" .f2l least).returns (.long Int64.minValue),
   (converted "_inf_neg" .f2d least).returns (.double (.infinity true))]

/-- What the conversions of a special double give. -/
def specialDoubles : List Fixture :=
  let nan := Literal.double .nan
  let most := Literal.double (.infinity false)
  let least := Literal.double (.infinity true)
  [(converted "_nan" .d2i nan).returns (.int 0),
   (converted "_nan" .d2l nan).returns (.long 0),
   (converted "_nan" .d2f nan).prints "NaNf",
   (converted "_inf_pos" .d2i most).returns (.int Int32.maxValue),
   (converted "_inf_pos" .d2l most).returns (.long Int64.maxValue),
   (converted "_inf_pos" .d2f most).returns (.float (.infinity false)),
   (converted "_inf_neg" .d2i least).returns (.int Int32.minValue),
   (converted "_inf_neg" .d2l least).returns (.long Int64.minValue),
   (converted "_inf_neg" .d2f least).returns (.float (.infinity true))]

/-- What narrowing leaves of an int. -/
def narrowed : List Fixture :=
  [(converted "_pos" .i2b (.int 0x7fffff7f)).returns (.int 0x7f),
   (converted "_pos" .i2c (.int 0x7fff7fff)).returns (.int 0x7fff),
   (converted "_pos" .i2s (.int 0x7fff7fff)).returns (.int 0x7fff),
   (converted "_neg" .i2b (.int 0x7fffffff)).returns (.int (-1)),
   (converted "_neg" .i2c (.int 0x7fffffff)).returns (.int 0xffff),
   (converted "_neg" .i2s (.int 0x7fffffff)).returns (.int (-1))]

/-- The fixtures about conversions. -/
def conversions : List Fixture :=
  let int := Literal.int Int32.maxValue
  let long := Literal.long Int64.maxValue
  let float := Literal.float 314.15926
  let double := Literal.double 314.15926
  [(converted "" .i2l int).returns (.long 2147483647),
   (converted "" .i2f int).returns (.float 2147483648.0),
   (converted "" .i2d int).returns (.double 2147483647.0),
   (converted "" .l2i long).returns (.int (-1)),
   (converted "" .l2f long).returns (.float 9.223372e18),
   (converted "" .l2d long).returns (.double 9.223372036854776e18),
   (converted "" .f2i float).returns (.int 314),
   (converted "" .f2l float).returns (.long 314),
   (converted "" .f2d float).returns (.double (Binary.convert (314.15926 : Single))),
   (converted "" .d2i double).returns (.int 314),
   (converted "" .d2l double).returns (.long 314),
   (converted "" .d2f double).returns (.float (Binary.convert (314.15926 : Double)))] ++
  specialFloats ++ specialDoubles ++ narrowed

end StackMachine.Catalog
