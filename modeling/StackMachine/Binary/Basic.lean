/-!
# Binary interchange formats

A binary floating-point number is a sign and a *magnitude*: the exponent and
fraction fields read together as one number. Magnitudes below `Format.infinity`
are finite, that magnitude is the infinity, and those above are the NaNs. Every
finite number is a whole number of *units*, one unit being the least positive
number of the format, and `Format.units` grows with the magnitude; so finite
numbers are compared, added and divided as integers.
-/

namespace StackMachine

-- Powers of natural numbers mean the same whichever algebra is in scope.
attribute [local instance (10000)] instPowNat

/-- A binary format: the widths of its exponent and fraction fields. -/
structure Format where
  /-- Width of the exponent field. -/
  exponentBits : Nat
  /-- Width of the fraction field, the leading bit of the significand left out. -/
  fractionBits : Nat
deriving DecidableEq, Repr

namespace Format

/-- The 32-bit format. -/
def single : Format := ⟨8, 23⟩

/-- The 64-bit format. -/
def double : Format := ⟨11, 52⟩

/-- How many magnitudes a format has. -/
def size (f : Format) : Nat := 2 ^ (f.exponentBits + f.fractionBits)

theorem size_pos (f : Format) : 0 < f.size := Nat.two_pow_pos _

/-- The leading bit of a significand, which is not stored. Magnitudes below it have
no such bit; they stand for zero and the numbers next to it. -/
def leadingBit (f : Format) : Nat := 2 ^ f.fractionBits

/-- The magnitude of the infinities: exponent field all ones, fraction zero. -/
def infinity (f : Format) : Nat := (2 ^ f.exponentBits - 1) * f.leadingBit

theorem infinity_lt_size (f : Format) : f.infinity < f.size := by
  unfold infinity leadingBit size
  rw [Nat.pow_add]
  exact Nat.mul_lt_mul_of_pos_right (by have := Nat.two_pow_pos f.exponentBits; omega)
    (Nat.two_pow_pos _)

/-- A quiet NaN's magnitude: exponent field all ones, leading fraction bit set. -/
def quietNaN (f : Format) : Nat := f.infinity + 2 ^ (f.fractionBits - 1)

/-- One unit is two to the minus `scale`. -/
def scale (f : Format) : Nat := 2 ^ (f.exponentBits - 1) - 2 + f.fractionBits

/-- The number one in units. -/
def one (f : Format) : Nat := 2 ^ f.scale

/-- The number of units that a magnitude stands for. Below the normal numbers it
is the magnitude itself; above, the significand has its leading bit restored and
is doubled once for every exponent past the first. -/
def units (f : Format) (magnitude : Nat) : Nat :=
  if magnitude < f.leadingBit then magnitude
  else (f.leadingBit + magnitude % f.leadingBit) <<< (magnitude / f.leadingBit - 1)

end Format

/-- A number of a binary format. Two numbers are equal when their bits are, so
`0` differs from `-0` and a NaN equals itself. -/
structure Binary (f : Format) where
  /-- The sign bit. -/
  negative : Bool
  /-- The exponent and fraction fields, read as one number. -/
  magnitude : Fin f.size
deriving DecidableEq, Repr

/-- A number of the 32-bit format. -/
abbrev Single := Binary .single

/-- A number of the 64-bit format. -/
abbrev Double := Binary .double

namespace Binary

variable {f : Format}

/-- The number with the given sign and magnitude; a magnitude past the format's
last one is reduced to its field width. -/
def ofParts (negative : Bool) (magnitude : Nat) : Binary f :=
  ⟨negative, ⟨magnitude % f.size, Nat.mod_lt _ f.size_pos⟩⟩

/-- The number with the given bits, the sign foremost. -/
def ofBits (bits : Nat) : Binary f := ofParts (bits / f.size % 2 = 1) bits

/-- The bits of a number, the sign foremost. -/
def toBits (x : Binary f) : Nat := (if x.negative then f.size else 0) + x.magnitude

/-- A number is its bits. -/
theorem ofBits_toBits (x : Binary f) : ofBits x.toBits = x := by
  obtain ⟨s, m, hm⟩ := x
  have h0 : m / f.size = 0 := Nat.div_eq_of_lt hm
  cases s
  · simp [ofBits, toBits, ofParts, Nat.mod_eq_of_lt hm, h0]
  · simp [ofBits, toBits, ofParts, Nat.add_div_left _ f.size_pos, Nat.mod_eq_of_lt hm, h0]

/-- The number is not a number: its magnitude is above the infinity's. -/
def isNaN (x : Binary f) : Bool := f.infinity < x.magnitude

/-- The number is an infinity. -/
def isInfinite (x : Binary f) : Bool := x.magnitude.val = f.infinity

/-- The number has a value: it is neither an infinity nor a NaN. -/
def isFinite (x : Binary f) : Bool := x.magnitude < f.infinity

/-- The number is one of the two zeros. -/
def isZero (x : Binary f) : Bool := x.magnitude.val = 0

/-- The zero of a given sign. -/
def zero (negative : Bool) : Binary f := ofParts negative 0

/-- The infinity of a given sign. -/
def infinity (negative : Bool) : Binary f := ofParts negative f.infinity

/-- The NaN that arithmetic and reading produce. -/
def nan : Binary f := ofParts false f.quietNaN

/-- The absolute value of a finite number in units. -/
def absUnits (x : Binary f) : Nat := f.units x.magnitude

/-- The value of a finite number in units. -/
def units (x : Binary f) : Int := if x.negative then -x.absUnits else x.absUnits

/-- Negation changes the sign bit and nothing else, of NaNs too. -/
def neg (x : Binary f) : Binary f := { x with negative := !x.negative }

@[simp] theorem neg_neg (x : Binary f) : x.neg.neg = x := by simp [neg]

end Binary

end StackMachine
