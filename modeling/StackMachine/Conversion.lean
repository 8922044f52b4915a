import StackMachine.Binary.Conversion
import StackMachine.Opcode
import StackMachine.Value

/-!
# Conversion

Conversions between the numeric kinds. An int narrowed to a byte, a char or a
short keeps its low bits; the result is an int again, extended with the sign, or
with zeros for a char.
-/

namespace StackMachine

/-- The int nearest to a binary number; zero for a NaN. -/
def saturateInt {f : Format} (x : Binary f) : Int32 :=
  .ofInt (x.saturate Int32.minValue.toInt Int32.maxValue.toInt)

/-- The long nearest to a binary number; zero for a NaN. -/
def saturateLong {f : Format} (x : Binary f) : Int64 :=
  .ofInt (x.saturate Int64.minValue.toInt Int64.maxValue.toInt)

namespace Conversion

/-- The kind that a conversion takes. -/
def source : Conversion → Numeric
  | i2l | i2f | i2d | i2b | i2c | i2s => .int
  | l2i | l2f | l2d => .long
  | f2i | f2l | f2d => .float
  | d2i | d2l | d2f => .double

/-- The kind that a conversion gives. -/
def target : Conversion → Numeric
  | l2i | f2i | d2i | i2b | i2c | i2s => .int
  | i2l | f2l | d2l => .long
  | i2f | l2f | d2f => .float
  | i2d | l2d | f2d => .double

/-- The converted number. -/
def apply : (c : Conversion) → c.source.Carrier → c.target.Carrier
  | i2l => Int32.toInt64
  | i2f => fun a => Binary.ofInt a.toInt
  | i2d => fun a => Binary.ofInt a.toInt
  | l2i => Int64.toInt32
  | l2f => fun a => Binary.ofInt a.toInt
  | l2d => fun a => Binary.ofInt a.toInt
  | f2i => saturateInt
  | f2l => saturateLong
  | f2d => Binary.convert
  | d2i => saturateInt
  | d2l => saturateLong
  | d2f => Binary.convert
  | i2b => fun (a : Int32) => a.toInt8.toInt32
  | i2c => fun (a : Int32) => a.toUInt32.toUInt16.toUInt32.toInt32
  | i2s => fun (a : Int32) => a.toInt16.toInt32

end Conversion

end StackMachine
