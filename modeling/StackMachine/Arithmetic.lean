import StackMachine.Binary.Arithmetic
import StackMachine.Fault
import StackMachine.Opcode
import StackMachine.Value

/-!
# Arithmetic

Integer arithmetic wraps around at the width of its kind; only division by zero
fails. Division truncates toward zero, and the quotient of the least number by
minus one wraps to that number. Shift amounts count modulo the width.
-/

namespace StackMachine

namespace Arithmetic

/-- An operation on ints. -/
def onInt (o : Arithmetic) (a b : Int32) : Except Fault Int32 :=
  match o with
  | add => .ok (a + b)
  | sub => .ok (a - b)
  | mul => .ok (a * b)
  | div => if b = 0 then .error .divideByZero else .ok (a / b)
  | rem => if b = 0 then .error .divideByZero else .ok (a % b)

/-- An operation on longs. -/
def onLong (o : Arithmetic) (a b : Int64) : Except Fault Int64 :=
  match o with
  | add => .ok (a + b)
  | sub => .ok (a - b)
  | mul => .ok (a * b)
  | div => if b = 0 then .error .divideByZero else .ok (a / b)
  | rem => if b = 0 then .error .divideByZero else .ok (a % b)

/-- An operation on binary numbers, which always has a result. -/
def onBinary {f : Format} (o : Arithmetic) (x y : Binary f) : Binary f :=
  match o with
  | add => x.add y
  | sub => x.sub y
  | mul => x.mul y
  | div => x.div y
  | rem => x.rem y

/-- An operation on the numbers of a kind. -/
def apply (o : Arithmetic) : (n : Numeric) → n.Carrier → n.Carrier → Except Fault n.Carrier
  | .int => o.onInt
  | .long => o.onLong
  | .float => fun x y => .ok (o.onBinary x y)
  | .double => fun x y => .ok (o.onBinary x y)

end Arithmetic

/-- The opposite of a number. -/
def Numeric.negate : (n : Numeric) → n.Carrier → n.Carrier
  | .int => fun (a : Int32) => -a
  | .long => fun (a : Int64) => -a
  | .float => Binary.neg
  | .double => Binary.neg

namespace Shift

/-- A shifted int. -/
def onInt (d : Shift) (a amount : Int32) : Int32 :=
  match d with
  | left => a <<< amount
  | right => a >>> amount
  | unsignedRight => (a.toUInt32 >>> amount.toUInt32).toInt32

/-- A shifted long. -/
def onLong (d : Shift) (a : Int64) (amount : Int32) : Int64 :=
  match d with
  | left => a <<< amount.toInt64
  | right => a >>> amount.toInt64
  | unsignedRight => (a.toUInt64 >>> amount.toUInt32.toUInt64).toInt64

/-- A shifted number of an integral kind. -/
def apply (d : Shift) : (n : Integral) → n.Carrier → Int32 → n.Carrier
  | .int => d.onInt
  | .long => d.onLong

end Shift

/-- A bitwise operation on the numbers of an integral kind. -/
def Bitwise.apply (o : Bitwise) : (n : Integral) → n.Carrier → n.Carrier → n.Carrier
  | .int => fun (a b : Int32) =>
    match o with
    | and => a &&& b
    | or => a ||| b
    | xor => a ^^^ b
  | .long => fun (a b : Int64) =>
    match o with
    | and => a &&& b
    | or => a ||| b
    | xor => a ^^^ b

/-- An int increased by a 16-bit number. -/
def increment (a : Int32) (delta : Int16) : Int32 := a + delta.toInt32

end StackMachine
