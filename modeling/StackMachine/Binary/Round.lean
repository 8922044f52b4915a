import StackMachine.Binary.Basic

/-!
# Rounding to the nearest number

An exact result is given as a quotient of two integers, counted in units of the
format. `Format.nearest` finds the magnitude of the nearest number: the quotient
is divided by the spacing of the numbers around it and rounded to an integer,
halves going to the even neighbour. A quotient past the largest finite number
rounds to the infinity.
-/

namespace StackMachine

/-- The integer nearest to `num / den`, a half going to the even neighbour. -/
def roundHalfEven (num den : Nat) : Nat :=
  let q := num / den
  let r := num % den
  if 2 * r < den then q
  else if den < 2 * r then q + 1
  else q + q % 2

/-- A quotient is rounded down unless its fraction is a half at least, and up unless it is a half at
most. -/
theorem roundHalfEven_cases (num den : Nat) :
    (roundHalfEven num den = num / den ∧ 2 * (num % den) ≤ den) ∨
      (roundHalfEven num den = num / den + 1 ∧ den ≤ 2 * (num % den)) := by
  unfold roundHalfEven
  have := Nat.mod_two_eq_zero_or_one (num / den)
  dsimp only
  split
  · omega
  · split <;> omega

@[simp] theorem roundHalfEven_one (num : Nat) : roundHalfEven num 1 = num := by
  simp [roundHalfEven, Nat.mod_one]

namespace Format

/-- The magnitude of the number nearest to `num / den` units. The spacing around
the quotient is `2 ^ shift` units; a significand that rounds up to the next power
of two carries into the exponent field, since both fields are one number. -/
def nearest (f : Format) (num den : Nat) : Nat :=
  let shift := (num / den).log2 - f.fractionBits
  min (shift * f.leadingBit + roundHalfEven num (den <<< shift)) f.infinity

/-- No pattern beyond infinity is the nearest one. -/
theorem nearest_le_infinity (f : Format) (num den : Nat) : f.nearest num den ≤ f.infinity :=
  Nat.min_le_right _ _

@[simp] theorem nearest_zero (f : Format) (den : Nat) (h : 0 < den) : f.nearest 0 den = 0 := by
  simp [nearest, roundHalfEven, h]

end Format

namespace Binary

variable {f : Format}

/-- The number nearest to `num / den` units, with the given sign. -/
def nearest (negative : Bool) (num den : Nat) : Binary f := ofParts negative (f.nearest num den)

/-- The number nearest to a signed number of units. Zero takes the given sign. -/
def ofUnits (zeroNegative : Bool) (n : Int) : Binary f :=
  if n = 0 then zero zeroNegative else nearest (n < 0) n.natAbs 1

end Binary

end StackMachine
