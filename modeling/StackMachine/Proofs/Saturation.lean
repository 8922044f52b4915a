import StackMachine.Conversion
import StackMachine.Proofs.ExactValues

/-!
# Saturating conversions

A number is converted to an integer type by comparing it with the ends of the type's range,
as numbers of its own format, and by dropping its fraction if it lies between them. The least
int and the least long are numbers of both formats. The greatest ones may have to be rounded,
but then they are rounded to the next integer, and no integer lies between the two: a number
below the rounded end has its integer part in the range, and the others are past the end.
-/

namespace StackMachine

-- Powers of natural numbers mean the same whichever algebra is in scope.
attribute [local instance (10000)] instPowNat

/-! ### Dropping the fraction -/

/-- A rational number rounded toward zero. -/
def towardZero (q : ℚ) : ℤ := if 0 ≤ q then ⌊q⌋ else ⌈q⌉

section

variable {q : ℚ} {n : ℤ}

/-- Truncation does not pass below an integer. -/
theorem le_towardZero (h : n ≤ q) : n ≤ towardZero q := by
  unfold towardZero
  split
  · exact Int.le_floor.2 h
  · exact_mod_cast h.trans (Int.le_ceil q)

theorem towardZero_le (h : q ≤ n) : towardZero q ≤ n := by
  unfold towardZero
  split
  · exact_mod_cast (Int.floor_le q).trans h
  · exact Int.ceil_le.2 h

/-- Above zero, everything beneath the next integer is truncated. -/
theorem towardZero_le_of_lt (hn : 0 ≤ n) (h : q < n + 1) : towardZero q ≤ n := by
  unfold towardZero
  split
  · have hfloor : ⌊q⌋ < n + 1 := Int.floor_lt.2 (by exact_mod_cast h)
    omega
  · rename_i hneg
    have hceil : ⌈q⌉ ≤ 0 := Int.ceil_le.2 (by exact_mod_cast (not_le.1 hneg).le)
    omega

/-- Truncation is the same on both sides of zero. -/
theorem towardZero_neg (q : ℚ) : towardZero (-q) = -towardZero q := by
  unfold towardZero
  rcases lt_trichotomy q 0 with h | rfl | h
  · rw [if_pos (by linarith), if_neg (by linarith), Int.floor_neg]
  · simp
  · rw [if_neg (by linarith), if_pos h.le, Int.ceil_neg]

/-- A quotient of natural numbers is truncated to their whole quotient. -/
theorem towardZero_natCast_div (m d : Nat) : towardZero ((m : ℚ) / d) = ((m / d : Nat) : ℤ) := by
  have hpos : (0 : ℚ) ≤ (m : ℚ) / d := div_nonneg m.cast_nonneg d.cast_nonneg
  rw [towardZero, if_pos hpos, Rat.floor_natCast_div_natCast]
  rfl

end

namespace Binary

variable {f : Format}

/-- The integer part of a number is its value rounded toward zero. -/
theorem truncate_eq (hf : 2 ≤ f.exponentBits) (x : Binary f) :
    x.truncate = towardZero x.value := by
  have hshift : x.absUnits >>> f.scale = x.absUnits / f.one := Nat.shiftRight_eq_div_pow ..
  have hwhole := towardZero_natCast_div x.absUnits f.one
  rw [value_eq_units hf, truncate, units, hshift]
  split
  · rw [Int.cast_neg, Int.cast_natCast, neg_div, towardZero_neg, hwhole]
  · rw [Int.cast_natCast, hwhole]

/-- Numbers that are not NaNs are compared by their values. -/
theorem ge_iff (hf : 2 ≤ f.exponentBits) {x y : Binary f} (hx : ¬ x.isNaN) (hy : ¬ y.isNaN) :
    x.ge y ↔ y.extended ≤ x.extended := by
  rw [← not_lt, extended_lt_extended_iff hf hx hy]
  simp [ge, hx, hy]

/-! ### The ends of a range -/

/-- The ends of a range of integers as numbers of a format. The lower one is exact, and the
upper one is rounded up to the next integer at most. -/
structure HoldsEnds (f : Format) (lo hi : Int) : Prop where
  low_nonpos : lo ≤ 0
  high_nonneg : 0 ≤ hi
  low_finite : (ofInt lo : Binary f).isFinite
  low_value : (ofInt lo : Binary f).value = lo
  high_finite : (ofInt hi : Binary f).isFinite
  high_value : (ofInt hi : Binary f).value = hi ∨ (ofInt hi : Binary f).value = hi + 1

/-- A conversion to a range of integers truncates toward zero and saturates, and the
comparisons with the ends of the range, as numbers of the format, do not interfere. -/
structure SaturatesExactly {f : Format} (lo hi : Int) (convert : Binary f → Int) : Prop where
  nan : ∀ x : Binary f, x.isNaN → convert x = 0
  infinite : ∀ x : Binary f, x.isInfinite → convert x = if x.negative then lo else hi
  finite : ∀ x : Binary f, x.isFinite → convert x = max lo (min hi (towardZero x.value))
  /-- What passes both comparisons has its integer part in the range. -/
  between : ∀ x : Binary f, ¬ x.isNaN → ¬ x.ge (ofInt hi) → ¬ (ofInt lo : Binary f).ge x →
    x.isFinite ∧ lo ≤ towardZero x.value ∧ towardZero x.value ≤ hi
  /-- What is stopped at the upper end has no other integer part in the range. -/
  upper : ∀ x : Binary f, x.isFinite → x.ge (ofInt hi) → towardZero x.value ≤ hi →
    towardZero x.value = hi
  /-- What is stopped at the lower end has no other integer part in the range. -/
  lower : ∀ x : Binary f, x.isFinite → (ofInt lo : Binary f).ge x → lo ≤ towardZero x.value →
    towardZero x.value = lo

namespace HoldsEnds

variable {lo hi : Int} (h : HoldsEnds f lo hi) (hf : 2 ≤ f.exponentBits) {x : Binary f}
include h hf

/-- A finite number reaches the upper end exactly if its value does. -/
theorem ge_high_iff (hx : x.isFinite) :
    x.ge (ofInt hi) ↔ (ofInt hi : Binary f).value ≤ x.value := by
  rw [ge_iff hf (not_isNaN_of_isFinite hx) (not_isNaN_of_isFinite h.high_finite),
    extended_of_isFinite hx, extended_of_isFinite h.high_finite, WithBotTop.coe_le_coe]

/-- A finite number reaches the lower end exactly if its value does. -/
theorem low_ge_iff (hx : x.isFinite) : (ofInt lo : Binary f).ge x ↔ x.value ≤ lo := by
  rw [ge_iff hf (not_isNaN_of_isFinite h.low_finite) (not_isNaN_of_isFinite hx),
    extended_of_isFinite hx, extended_of_isFinite h.low_finite, WithBotTop.coe_le_coe,
    h.low_value]

/-- What reaches the upper end has its integer part there or past it. -/
theorem high_le (hx : x.isFinite) (hge : x.ge (ofInt hi)) : hi ≤ towardZero x.value := by
  have hle := (h.ge_high_iff hf hx).1 hge
  refine le_towardZero ?_
  -- A rounded end is above the end itself.
  rcases h.high_value with hv | hv <;> rw [hv] at hle <;> linarith

/-- What does not reach the upper end has its integer part there or before it. -/
theorem le_high (hx : x.isFinite) (hge : ¬ x.ge (ofInt hi)) : towardZero x.value ≤ hi := by
  have hlt := not_le.1 fun hle => hge ((h.ge_high_iff hf hx).2 hle)
  refine towardZero_le_of_lt h.high_nonneg ?_
  -- Below a rounded end, a number can be past the end itself by a fraction only.
  rcases h.high_value with hv | hv <;> rw [hv] at hlt <;> linarith

/-- What reaches the lower end is truncated to it or to less. -/
theorem le_low (hx : x.isFinite) (hge : (ofInt lo : Binary f).ge x) : towardZero x.value ≤ lo :=
  towardZero_le ((h.low_ge_iff hf hx).1 hge)

/-- What does not reach the lower end is not truncated to less. -/
theorem low_le (hx : x.isFinite) (hge : ¬ (ofInt lo : Binary f).ge x) :
    lo ≤ towardZero x.value :=
  le_towardZero (not_le.1 fun hle => hge ((h.low_ge_iff hf hx).2 hle)).le

/-- Of the infinities, the positive one reaches the upper end. -/
theorem ge_high_of_isInfinite (hx : x.isInfinite) : x.ge (ofInt hi) ↔ x.negative = false := by
  rw [ge_iff hf (not_isNaN_of_isInfinite hx) (not_isNaN_of_isFinite h.high_finite),
    extended_of_isFinite h.high_finite, extended, if_pos hx]
  cases x.negative <;> simp

/-- The negative one reaches the lower end. -/
theorem low_ge_of_isInfinite (hx : x.isInfinite) :
    (ofInt lo : Binary f).ge x ↔ x.negative = true := by
  rw [ge_iff hf (not_isNaN_of_isFinite h.low_finite) (not_isNaN_of_isInfinite hx),
    extended_of_isFinite h.low_finite, extended, if_pos hx]
  cases x.negative <;> simp

/-- Comparing with the ends of the range saturates exactly. -/
theorem saturatesExactly : SaturatesExactly lo hi (saturate (f := f) lo hi) where
  nan x hx := if_pos hx
  infinite x hx := by
    have hhigh := h.ge_high_of_isInfinite hf hx
    have hlow := h.low_ge_of_isInfinite hf hx
    rw [saturate, if_neg (not_isNaN_of_isInfinite hx)]
    cases hneg : x.negative with
    | true => rw [if_neg (by simp [hhigh, hneg]), if_pos (hlow.2 hneg), if_pos rfl]
    | false => rw [if_pos (hhigh.2 hneg), if_neg (by simp)]
  finite x hx := by
    have hlo := h.low_nonpos
    have hhi := h.high_nonneg
    rw [saturate, if_neg (not_isNaN_of_isFinite hx), truncate_eq hf]
    split
    · have hle := h.high_le hf hx ‹_›
      omega
    · have hle := h.le_high hf hx ‹_›
      split
      · have hge := h.le_low hf hx ‹_›
        omega
      · have hge := h.low_le hf hx ‹_›
        omega
  between x hnan hhigh hlow := by
    have hx : x.isFinite := isFinite_of_not_isNaN hnan fun hinf => by
      have hpos := mt (h.ge_high_of_isInfinite hf hinf).2 hhigh
      exact hlow ((h.low_ge_of_isInfinite hf hinf).2 (by simpa using hpos))
    exact ⟨hx, h.low_le hf hx hlow, h.le_high hf hx hhigh⟩
  upper x hx hge hle := Int.le_antisymm hle (h.high_le hf hx hge)
  lower x hx hge hle := Int.le_antisymm (h.le_low hf hx hge) hle

end HoldsEnds

/-- What saturates exactly stays in the range. -/
theorem SaturatesExactly.mem {lo hi : Int} {convert : Binary f → Int}
    (h : SaturatesExactly lo hi convert) (hlo : lo ≤ 0) (hhi : 0 ≤ hi) (x : Binary f) :
    lo ≤ convert x ∧ convert x ≤ hi := by
  by_cases hnan : x.isNaN
  · rw [h.nan x hnan]
    exact ⟨hlo, hhi⟩
  by_cases hinf : x.isInfinite
  · rw [h.infinite x hinf]
    split <;> omega
  · rw [h.finite x (isFinite_of_not_isNaN hnan hinf)]
    omega

/-- The ends of a range are held by a format, the lower one as it is and the upper one as a
given number. -/
def EndsInUnits (f : Format) (lo hi n : Int) : Prop :=
  ((ofInt lo : Binary f).isFinite ∧ (ofInt lo : Binary f).units = lo * f.one) ∧
    (ofInt hi : Binary f).isFinite ∧ (ofInt hi : Binary f).units = n * f.one

instance (f : Format) (lo hi n : Int) : Decidable (EndsInUnits f lo hi n) :=
  inferInstanceAs (Decidable ((_ ∧ _) ∧ _ ∧ _))

/-- A format holds the ends if it holds them in units of its least number, the upper one rounded up
at most. -/
theorem HoldsEnds.of_units (hf : 2 ≤ f.exponentBits) {lo hi n : Int} (hrange : lo ≤ 0 ∧ 0 ≤ hi)
    (hends : EndsInUnits f lo hi n) (hn : n = hi ∨ n = hi + 1) : HoldsEnds f lo hi where
  low_nonpos := hrange.1
  high_nonneg := hrange.2
  low_finite := hends.1.1
  low_value := value_of_units hf hends.1.2
  high_finite := hends.2.1
  high_value := by
    rw [value_of_units hf hends.2.2]
    exact_mod_cast hn

end Binary

open Binary

/-! ### Ints and longs -/

section

variable {f : Format} (hf : 2 ≤ f.exponentBits)
include hf

/-- Types with the range as theirs hold what the conversion gives. -/
theorem Binary.HoldsEnds.saturatesExactly_toInt {lo hi : Int} (h : HoldsEnds f lo hi) {α : Type}
    {wrap : Int → α} {toInt : α → Int} (hwrap : ∀ n, lo ≤ n → n ≤ hi → toInt (wrap n) = n) :
    SaturatesExactly lo hi fun x : Binary f => toInt (wrap (x.saturate lo hi)) := by
  have hexact := h.saturatesExactly hf
  have heq : (fun x : Binary f => toInt (wrap (x.saturate lo hi))) = saturate lo hi :=
    funext fun x =>
      have hmem := hexact.mem h.low_nonpos h.high_nonneg x
      hwrap _ hmem.1 hmem.2
  rwa [heq]

/-- A format that holds the ends of the ints is converted to ints exactly. -/
theorem saturateInt_exactly (h : HoldsEnds f Int32.minValue.toInt Int32.maxValue.toInt) :
    SaturatesExactly Int32.minValue.toInt Int32.maxValue.toInt
      fun x : Binary f => (saturateInt x).toInt :=
  h.saturatesExactly_toInt hf fun _ hlo hhi =>
    Int32.toInt_ofInt_of_le hlo (Int.lt_add_one_iff.2 hhi)

theorem saturateLong_exactly (h : HoldsEnds f Int64.minValue.toInt Int64.maxValue.toInt) :
    SaturatesExactly Int64.minValue.toInt Int64.maxValue.toInt
      fun x : Binary f => (saturateLong x).toInt :=
  h.saturatesExactly_toInt hf fun _ hlo hhi =>
    Int64.toInt_ofInt_of_le hlo (Int.lt_add_one_iff.2 hhi)

end

/-- Both formats hold the least numbers exactly. Only the greatest int is held too, and only as a
double; the others are rounded up. -/
theorem endsInUnits :
    EndsInUnits .single Int32.minValue.toInt Int32.maxValue.toInt (2 ^ 31) ∧
      EndsInUnits .single Int64.minValue.toInt Int64.maxValue.toInt (2 ^ 63) ∧
      EndsInUnits .double Int32.minValue.toInt Int32.maxValue.toInt (2 ^ 31 - 1) ∧
      EndsInUnits .double Int64.minValue.toInt Int64.maxValue.toInt (2 ^ 63) := by
  decide +kernel

/-- The greatest int is rounded up as a float. -/
theorem value_maxInt_single : (ofInt Int32.maxValue.toInt : Single).value = 2 ^ 31 := by
  rw [value_of_units (by decide) endsInUnits.1.2.2]
  norm_num

theorem value_maxLong_single : (ofInt Int64.maxValue.toInt : Single).value = 2 ^ 63 := by
  rw [value_of_units (by decide) endsInUnits.2.1.2.2]
  norm_num

/-- The greatest int is exact as a double. -/
theorem value_maxInt_double : (ofInt Int32.maxValue.toInt : Double).value = 2 ^ 31 - 1 := by
  rw [value_of_units (by decide) endsInUnits.2.2.1.2.2]
  norm_num

/-- The greatest long is rounded up as a double. -/
theorem value_maxLong_double : (ofInt Int64.maxValue.toInt : Double).value = 2 ^ 63 := by
  rw [value_of_units (by decide) endsInUnits.2.2.2.2.2]
  norm_num

theorem holdsEnds_int_single : HoldsEnds .single Int32.minValue.toInt Int32.maxValue.toInt :=
  .of_units (by decide) (by decide) endsInUnits.1 (.inr (by decide))

theorem holdsEnds_long_single : HoldsEnds .single Int64.minValue.toInt Int64.maxValue.toInt :=
  .of_units (by decide) (by decide) endsInUnits.2.1 (.inr (by decide))

theorem holdsEnds_int_double : HoldsEnds .double Int32.minValue.toInt Int32.maxValue.toInt :=
  .of_units (by decide) (by decide) endsInUnits.2.2.1 (.inl (by decide))

theorem holdsEnds_long_double : HoldsEnds .double Int64.minValue.toInt Int64.maxValue.toInt :=
  .of_units (by decide) (by decide) endsInUnits.2.2.2 (.inr (by decide))

/-- The four conversions to integers are exact on every number, whether or not the format
holds the greatest number of the target: a NaN becomes zero, an infinity its end of the range,
and a finite number its value rounded toward zero and then kept in the range. -/
theorem conversions_saturate_exactly :
    (SaturatesExactly Int32.minValue.toInt Int32.maxValue.toInt
        fun x : Single => Int32.toInt (Conversion.f2i.apply x)) ∧
      (SaturatesExactly Int64.minValue.toInt Int64.maxValue.toInt
        fun x : Single => Int64.toInt (Conversion.f2l.apply x)) ∧
      (SaturatesExactly Int32.minValue.toInt Int32.maxValue.toInt
        fun x : Double => Int32.toInt (Conversion.d2i.apply x)) ∧
      (SaturatesExactly Int64.minValue.toInt Int64.maxValue.toInt
        fun x : Double => Int64.toInt (Conversion.d2l.apply x)) ∧
      (ofInt Int32.maxValue.toInt : Single).value = 2 ^ 31 ∧
      (ofInt Int64.maxValue.toInt : Single).value = 2 ^ 63 ∧
      (ofInt Int64.maxValue.toInt : Double).value = 2 ^ 63 ∧
      (ofInt Int32.maxValue.toInt : Double).value = Int32.maxValue.toInt := by
  refine ⟨saturateInt_exactly (by decide) holdsEnds_int_single,
    saturateLong_exactly (by decide) holdsEnds_long_single,
    saturateInt_exactly (by decide) holdsEnds_int_double,
    saturateLong_exactly (by decide) holdsEnds_long_double,
    value_maxInt_single, value_maxLong_single, value_maxLong_double, ?_⟩
  rw [value_maxInt_double, Int32.toInt_maxValue]
  norm_num

end StackMachine
