import StackMachine.Binary.Round

/-!
# Arithmetic on binary numbers

Each operation computes its exact result in units and rounds it once. Any
operation on a NaN gives the NaN, and so do the operations without a value:
the difference of equal infinities, zero times an infinity, the quotient of two
zeros or two infinities, and a remainder of an infinity or by a zero. The
remainder is that of division truncated toward zero; it is exact, and has the
sign of the dividend.
-/

namespace StackMachine.Binary

variable {f : Format}

/-- The sum. Opposite numbers add up to the positive zero. -/
def add (x y : Binary f) : Binary f :=
  if x.isNaN || y.isNaN then nan
  else if x.isInfinite then
    if y.isInfinite && x.negative != y.negative then nan else x
  else if y.isInfinite then y
  else ofUnits (x.negative && y.negative) (x.units + y.units)

/-- The difference, which is the sum with the opposite. -/
def sub (x y : Binary f) : Binary f := x.add y.neg

/-- The product. -/
def mul (x y : Binary f) : Binary f :=
  let negative := x.negative != y.negative
  if x.isNaN || y.isNaN then nan
  else if x.isInfinite then
    if y.isZero then nan else infinity negative
  else if y.isInfinite then
    if x.isZero then nan else infinity negative
  else nearest negative (x.absUnits * y.absUnits) f.one

/-- The quotient. Division of a nonzero number by a zero gives an infinity. -/
def div (x y : Binary f) : Binary f :=
  let negative := x.negative != y.negative
  if x.isNaN || y.isNaN then nan
  else if x.isInfinite then
    if y.isInfinite then nan else infinity negative
  else if y.isInfinite then zero negative
  else if y.isZero then
    if x.isZero then nan else infinity negative
  else nearest negative (x.absUnits * f.one) y.absUnits

/-- The remainder of division truncated toward zero. -/
def rem (x y : Binary f) : Binary f :=
  if x.isNaN || y.isNaN || x.isInfinite || y.isZero then nan
  else if y.isInfinite then x
  else nearest x.negative (x.absUnits % y.absUnits) 1

/-- The position of a number in the order of all numbers that are not NaNs. Both
zeros are at position zero, and the infinities are at the ends. -/
def rank (x : Binary f) : Int := if x.negative then -x.magnitude.val else x.magnitude.val

/-- How two numbers compare, unless one of them is a NaN. -/
def compare? (x y : Binary f) : Option Ordering :=
  if x.isNaN || y.isNaN then none else some (compare x.rank y.rank)

/-- At least as great as another number; false of NaNs. -/
def ge (x y : Binary f) : Bool := !x.isNaN && !y.isNaN && y.rank ≤ x.rank

end StackMachine.Binary
