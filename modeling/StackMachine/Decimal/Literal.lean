import StackMachine.Decimal.Basic

/-!
# Decimal literals

Numerals with a point stand for binary numbers: `1.5` is the nearest number of the
format that is asked for.
-/

namespace StackMachine.Binary

variable {f : Format}

/-- A numeral with a point is read as the nearest number. -/
instance : OfScientific (Binary f) where
  ofScientific m s e := ofDecimal ⟨false, m, if s then -(e : Int) else e⟩

/-- A minus sign in front of a number changes its sign bit. -/
instance : Neg (Binary f) where
  neg := neg

end StackMachine.Binary
