import StackMachine.Binary.Arithmetic
import StackMachine.Opcode
import StackMachine.Value

/-!
# Comparison

Numbers are compared to an ordering. Longs are compared by value; floating-point
numbers by value too, with equal zeros, and with a fixed answer if either is a
NaN. A condition then selects some of the orderings.
-/

namespace StackMachine

namespace Condition

/-- The condition holds of an ordering. -/
def holds : Condition → Ordering → Bool
  | eq, o => o = .eq
  | ne, o => o ≠ .eq
  | lt, o => o = .lt
  | ge, o => o ≠ .lt
  | gt, o => o = .gt
  | le, o => o ≠ .gt

/-- The condition holds between two ints. -/
def compares (c : Condition) (a b : Int32) : Bool := c.holds (compare a.toInt b.toInt)

/-- The condition holds between an int and zero. -/
def tests (c : Condition) (a : Int32) : Bool := c.compares a 0

end Condition

namespace ThreeWay

/-- The kind of the numbers that are compared. -/
def operand : ThreeWay → Numeric
  | long => .long
  | float _ => .float
  | double _ => .double

/-- How two binary numbers compare, with the given answer about NaNs. -/
def onBinary {f : Format} (u : Unordered) (x y : Binary f) : Ordering :=
  (x.compare? y).getD u.ordering

/-- How two longs compare. -/
def onLong (a b : Int64) : Ordering := compare a.toInt b.toInt

/-- How two numbers compare. -/
def apply : (c : ThreeWay) → c.operand.Carrier → c.operand.Carrier → Ordering
  | long => onLong
  | float u => onBinary u
  | double u => onBinary u

end ThreeWay

/-- The int that stands for an ordering: minus one, zero or one. -/
def orderingValue : Ordering → Int32
  | .lt => -1
  | .eq => 0
  | .gt => 1

end StackMachine
