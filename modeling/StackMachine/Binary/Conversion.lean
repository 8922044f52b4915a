import StackMachine.Binary.Arithmetic

/-!
# Conversions to and from binary numbers

Integers and numbers of another format are rounded to the nearest number. The
way back to the integers truncates toward zero and saturates: NaN becomes zero,
and a number at or past an end of the target range becomes that end.
-/

namespace StackMachine.Binary

variable {f g : Format}

/-- The number nearest to an integer. -/
def ofInt (n : Int) : Binary f := nearest (n < 0) (n.natAbs * f.one) 1

/-- The number of another format nearest to a number. Signs survive, and a NaN
becomes the NaN of the other format. -/
def convert (x : Binary f) : Binary g :=
  if x.isNaN then nan
  else if x.isInfinite then infinity x.negative
  else nearest x.negative (x.absUnits * g.one) f.one

/-- The integer part of a finite number. -/
def truncate (x : Binary f) : Int :=
  let whole := x.absUnits >>> f.scale
  if x.negative then -whole else whole

/-- The integer part, kept between `lo` and `hi`. The ends are compared as
numbers of the format, so that an end which the format cannot hold is compared
as the number nearest to it. -/
def saturate (lo hi : Int) (x : Binary f) : Int :=
  if x.isNaN then 0
  else if x.ge (ofInt hi) then hi
  else if (ofInt lo : Binary f).ge x then lo
  else x.truncate

end StackMachine.Binary
