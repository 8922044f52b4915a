import Mathlib.Algebra.Ring.Parity
import StackMachine.Proofs.ExactValues

/-!
# Rounding to nearest

A number is what a rational number rounds to if none is nearer to that, and if it is even
wherever another one is as near. There is at most one such number of a sign, and rounding a
quotient finds it: the quotient lies between two neighbouring magnitudes, and which of them is
chosen is told by the remainder of the division that is made.
-/

namespace StackMachine

-- Powers of natural numbers mean the same whichever algebra is in scope.
attribute [local instance (10000)] instPowNat

namespace Format

variable {f : Format} {num den a c s k : Nat}

/-- A quotient in units lies between a magnitude and the next one, and one of them is chosen:
the nearer one, and in the middle the even one. -/
structure Chooses (f : Format) (num den a c : Nat) : Prop where
  low : f.units a * den ≤ num
  high : num ≤ f.units (a + 1) * den
  nearer : c = a ∧ 2 * num ≤ f.units a * den + f.units (a + 1) * den ∨
    c = a + 1 ∧ f.units a * den + f.units (a + 1) * den ≤ 2 * num
  even : 2 * num = f.units a * den + f.units (a + 1) * den → Even c

/-- Around the significands of an exponent, units are the significand in the spacing of the
exponent. -/
theorem units_add_mul (hlow : s = 0 ∨ f.leadingBit ≤ k) (hhigh : k ≤ 2 * f.leadingBit) :
    f.units (s * f.leadingBit + k) = k * 2 ^ s := by
  have hpos := f.leadingBit_pos
  by_cases hsmall : k < f.leadingBit
  · obtain rfl : s = 0 := by omega
    rw [Nat.zero_mul, Nat.zero_add, Nat.pow_zero, Nat.mul_one, units, if_pos hsmall]
  by_cases hlast : k = 2 * f.leadingBit
  · have hnext := f.units_normal (s + 1) hpos
    have hsum : f.leadingBit * (s + 1 + 1) + 0 = s * f.leadingBit + k := by
      rw [hlast, Nat.mul_succ, Nat.mul_succ, Nat.mul_comm s]
      omega
    rw [hsum] at hnext
    rw [hnext, hlast, Nat.add_zero, Nat.pow_succ', ← Nat.mul_assoc, Nat.mul_comm _ 2]
  · have hnormal := f.units_normal s (r := k - f.leadingBit) (by omega)
    have hsum : f.leadingBit * (s + 1) + (k - f.leadingBit) = s * f.leadingBit + k := by
      rw [Nat.mul_succ, Nat.mul_comm s]
      omega
    have hk : f.leadingBit + (k - f.leadingBit) = k := by omega
    rw [hsum, hk] at hnormal
    exact hnormal

/-- The spacing that a quotient is divided by leaves a significand. -/
theorem significand_bounds (hs : (num / den).log2 - f.fractionBits = s) :
    (s = 0 ∨ f.leadingBit ≤ num / (den * 2 ^ s)) ∧ num / (den * 2 ^ s) < 2 * f.leadingBit := by
  rw [← Nat.div_div_eq_div_mul]
  constructor
  · by_cases hzero : s = 0
    · exact .inl hzero
    · have hne : num / den ≠ 0 := by
        intro he
        rw [he, Nat.log2_zero, Nat.zero_sub] at hs
        exact hzero hs.symm
      have hself := Nat.log2_self_le hne
      rw [show (num / den).log2 = f.fractionBits + s by omega, Nat.pow_add] at hself
      exact .inr ((Nat.le_div_iff_mul_le (Nat.two_pow_pos s)).2 hself)
  · refine (Nat.div_lt_iff_lt_mul (Nat.two_pow_pos s)).2 ?_
    have hpow : 2 * f.leadingBit * 2 ^ s = 2 ^ (f.fractionBits + s + 1) := by
      rw [leadingBit, Nat.pow_succ', Nat.pow_add, Nat.mul_assoc]
    rw [hpow]
    exact Nat.lt_of_lt_of_le Nat.lt_log2_self (Nat.pow_le_pow_right (by decide) (by omega))

/-- A tie is rounded to an even number. -/
theorem even_roundHalfEven (h : 2 * (num % den) = den) : Even (roundHalfEven num den) := by
  unfold roundHalfEven
  dsimp only
  rw [if_neg (by omega), if_neg (by omega), Nat.even_iff]
  omega

/-- The magnitude that a quotient rounds to is chosen from the two around it, unless it is past the
infinity. -/
theorem exists_chooses (hf : 1 ≤ f.fractionBits) (num : Nat) (hden : 0 < den) :
    ∃ a c, f.Chooses num den a c ∧ f.nearest num den = min c f.infinity := by
  obtain ⟨s, hs⟩ : ∃ s, (num / den).log2 - f.fractionBits = s := ⟨_, rfl⟩
  obtain ⟨hlow, hhigh⟩ := significand_bounds (f := f) hs
  have hnearest := f.nearest_of_shift hs
  rw [Nat.shiftLeft_eq] at hnearest
  -- The quotient by the spacing is the lower significand, and the remainder tells which is nearer.
  have hsplit := Nat.div_add_mod num (den * 2 ^ s)
  have hrem := Nat.mod_lt num (Nat.mul_pos hden (Nat.two_pow_pos s))
  have hcases := roundHalfEven_cases num (den * 2 ^ s)
  have hunits : f.units (s * f.leadingBit + num / (den * 2 ^ s)) * den =
      den * 2 ^ s * (num / (den * 2 ^ s)) := by
    rw [units_add_mul hlow (by omega)]
    ac_rfl
  have hnext : f.units (s * f.leadingBit + num / (den * 2 ^ s) + 1) * den =
      den * 2 ^ s * (num / (den * 2 ^ s)) + den * 2 ^ s := by
    rw [Nat.add_assoc, units_add_mul (hlow.imp_right fun h => by omega) (by omega), Nat.add_mul,
      Nat.add_mul, Nat.one_mul]
    ac_rfl
  refine ⟨s * f.leadingBit + num / (den * 2 ^ s), _, ?_, hnearest⟩
  constructor
  case low =>
    rw [hunits]
    omega
  case high =>
    rw [hnext]
    omega
  case nearer =>
    rw [hunits, hnext]
    omega
  case even =>
    intro hmiddle
    rw [hunits, hnext] at hmiddle
    have hlead : Even f.leadingBit := Nat.even_pow.2 ⟨even_two, by omega⟩
    exact (hlead.mul_left s).add (even_roundHalfEven (by omega))

end Format

/-- Put a sign in front of a rational number. -/
def withSign (negative : Bool) (q : ℚ) : ℚ := if negative then -q else q

namespace Decimal

/-- The rational number that is written in decimal. -/
def toRat (d : Decimal) : ℚ := withSign d.negative (d.coefficient * 10 ^ d.exponent)

end Decimal

namespace Binary

variable {f : Format} {negative : Bool} {q : ℚ} {x y : Binary f} {num den : Nat}

/-- The number is what a rational number rounds to, and has a given sign. An infinity takes part as
the power of two past the largest number, which its fields would stand for. -/
structure RoundsTo (negative : Bool) (q : ℚ) (x : Binary f) : Prop where
  sign : x.negative = negative
  not_isNaN : ¬ x.isNaN
  nearest : ∀ y : Binary f, ¬ y.isNaN → |x.value - q| ≤ |y.value - q|
  even : ∀ y : Binary f, ¬ y.isNaN → y.value ≠ x.value → |x.value - q| = |y.value - q| →
    Even x.magnitude.val

/-! ### At most one number -/

/-- Between two numbers at the same distance every other one is nearer. -/
theorem abs_sub_lt_of_between {a b c q : ℚ} (h : |a - q| = |b - q|) (hac : a < c) (hcb : c < b) :
    |c - q| < |a - q| := by
  rcases abs_eq_abs.1 h with he | he
  · linarith
  · have ha : a - q < 0 := by linarith
    rw [abs_of_neg ha, abs_lt]
    constructor <;> linarith

/-- Between even magnitudes there is an odd one. -/
theorem exists_between (hsign : x.negative = y.negative) (hx : Even x.magnitude.val)
    (hy : Even y.magnitude.val) (hxnan : ¬ x.isNaN) (hynan : ¬ y.isNaN) (hlt : x.rank < y.rank) :
    ∃ z : Binary f, ¬ z.isNaN ∧ x.rank < z.rank ∧ z.rank < y.rank := by
  have hsize := f.infinity_lt_size
  obtain ⟨s, m, hm⟩ := x
  obtain ⟨t, n, hn⟩ := y
  obtain rfl : s = t := hsign
  simp only [isNaN, rank, decide_eq_true_eq, Nat.even_iff] at hx hy hxnan hynan hlt
  have hne : m ≠ n := by
    rintro rfl
    exact lt_irrefl _ hlt
  refine ⟨⟨s, ⟨min m n + 1, by omega⟩⟩, ?_⟩
  simp only [isNaN, rank, decide_eq_true_eq]
  cases s <;> simp only [Bool.false_eq_true, if_false, if_true] at hlt ⊢ <;> omega

/-- Numbers of the same sign and the same value are the same. -/
theorem eq_of_value_eq (hf : 2 ≤ f.exponentBits) (hsign : x.negative = y.negative)
    (h : x.value = y.value) : x = y := by
  have hxy := value_lt_value_iff hf x y
  have hyx := value_lt_value_iff hf y x
  rw [h, lt_self_iff_false, false_iff] at hxy hyx
  obtain ⟨s, m⟩ := x
  obtain ⟨t, n⟩ := y
  obtain rfl : s = t := hsign
  unfold rank at hxy hyx
  have hm : m = n := by
    apply Fin.ext
    cases s <;> simp only [Bool.false_eq_true, if_false, if_true] at hxy hyx <;> omega
  rw [hm]

/-- A rational number rounds to at most one number of a sign. -/
theorem RoundsTo.unique (hf : 2 ≤ f.exponentBits) (hx : RoundsTo negative q x)
    (hy : RoundsTo negative q y) : x = y := by
  have hsign : x.negative = y.negative := hx.sign.trans hy.sign.symm
  have hnear := le_antisymm (hx.nearest y hy.not_isNaN) (hy.nearest x hx.not_isNaN)
  by_contra hne
  have hvalue : x.value ≠ y.value := fun h => hne (eq_of_value_eq hf hsign h)
  have hxeven := hx.even y hy.not_isNaN hvalue.symm hnear
  have hyeven := hy.even x hx.not_isNaN hvalue hnear.symm
  -- Something odd between the two would be nearer than both.
  rcases lt_or_gt_of_ne hvalue with hlt | hlt
  · obtain ⟨z, hznan, hxz, hzy⟩ := exists_between hsign hxeven hyeven hx.not_isNaN hy.not_isNaN
      ((value_lt_value_iff hf x y).1 hlt)
    rw [← value_lt_value_iff hf] at hxz hzy
    exact absurd (hx.nearest z hznan) (abs_sub_lt_of_between hnear hxz hzy).not_ge
  · obtain ⟨z, hznan, hyz, hzx⟩ := exists_between hsign.symm hyeven hxeven hy.not_isNaN
      hx.not_isNaN ((value_lt_value_iff hf y x).1 hlt)
    rw [← value_lt_value_iff hf] at hyz hzx
    exact absurd (hy.nearest z hznan) (abs_sub_lt_of_between hnear.symm hyz hzx).not_ge

/-! ### The number that is found -/

/-- The chosen end of an interval is as near as anything outside, and nothing else is, unless what
is rounded is in the middle. -/
theorem natAbs_sub_le_of_chosen {low high n c v : ℤ} (hlow : low ≤ n) (hhigh : n ≤ high)
    (hc : c = low ∧ 2 * n ≤ low + high ∨ c = high ∧ low + high ≤ 2 * n) (hv : v ≤ low ∨ high ≤ v) :
    (c - n).natAbs ≤ (v - n).natAbs ∧
      (v ≠ c → (c - n).natAbs = (v - n).natAbs → 2 * n = low + high) := by
  omega

/-- No number is between two neighbouring magnitudes. -/
theorem units_le_or_le (y : Binary f) (a : Nat) :
    y.units ≤ f.units a ∨ (f.units (a + 1) : ℤ) ≤ y.units := by
  have hmono := f.units_strictMono.monotone
  unfold units absUnits
  split
  · omega
  · rcases Nat.lt_or_ge a y.magnitude.val with h | h
    · exact .inr (by exact_mod_cast hmono h)
    · exact .inl (by exact_mod_cast hmono h)

/-- Distances are counted in units. -/
theorem abs_value_sub (hf : 2 ≤ f.exponentBits) (x : Binary f) (num : Nat) (hden : 0 < den) :
    |x.value - num / (den * f.one)| = (x.units * den - num).natAbs / (den * f.one) := by
  have hone : (0 : ℚ) < f.one := by exact_mod_cast f.one_pos
  have hpos : (0 : ℚ) < den := by exact_mod_cast hden
  have hsub : x.value - num / (den * f.one) =
      ((x.units * den - num : ℤ) : ℚ) / (den * f.one) := by
    rw [value_eq_units hf]
    push_cast
    field_simp
  rw [hsub, abs_div, abs_of_pos (mul_pos hpos hone), Nat.cast_natAbs, Int.cast_abs]

/-- A number without a minus sign that is as near as any other one, in units. -/
theorem roundsTo_of_units (hf : 2 ≤ f.exponentBits) (hden : 0 < den) (hsign : x.negative = negative)
    (hnan : ¬ x.isNaN)
    (h : ∀ y : Binary f, ¬ y.isNaN →
      (x.units * den - num).natAbs ≤ (y.units * den - num).natAbs ∧
        (y.units * den ≠ x.units * den →
          (x.units * den - num).natAbs = (y.units * den - num).natAbs → Even x.magnitude.val)) :
    RoundsTo negative (num / (den * f.one)) x where
  sign := hsign
  not_isNaN := hnan
  nearest y hy := by
    rw [abs_value_sub hf x num hden, abs_value_sub hf y num hden]
    exact div_le_div_of_nonneg_right (by exact_mod_cast (h y hy).1) (by positivity)
  even y hy hne heq := by
    have hpos : (0 : ℚ) < den * f.one := by exact_mod_cast Nat.mul_pos hden f.one_pos
    rw [abs_value_sub hf x num hden, abs_value_sub hf y num hden, div_left_inj' hpos.ne'] at heq
    refine (h y hy).2 (fun he => hne ?_) (by exact_mod_cast heq)
    have hunits : y.units = x.units := Int.eq_of_mul_eq_mul_right (by omega) he
    rw [value_eq_units hf, value_eq_units hf, hunits]

/-- A quotient of units rounds to the number that is found for it. -/
theorem roundsTo_nearest_false (hf : 2 ≤ f.exponentBits) (hfraction : 1 ≤ f.fractionBits)
    (num : Nat) (hden : 0 < den) :
    RoundsTo false (num / (den * f.one)) (nearest false num den : Binary f) := by
  obtain ⟨a, c, hchoice, hc⟩ := Format.exists_chooses hfraction num hden
  have hmagnitude : (nearest false num den : Binary f).magnitude.val = min c f.infinity := by
    rw [← hc]
    exact Nat.mod_eq_of_lt (Nat.lt_of_le_of_lt (f.nearest_le_infinity _ _) f.infinity_lt_size)
  have hnan : ¬ (nearest false num den : Binary f).isNaN := by
    simp only [isNaN, hmagnitude, decide_eq_true_eq]
    omega
  have hunits : (nearest false num den : Binary f).units = f.units (min c f.infinity) := by
    rw [← hmagnitude]
    rfl
  refine roundsTo_of_units hf hden rfl hnan fun y hy => ?_
  rw [hunits, hmagnitude]
  obtain ⟨hlow, hhigh, hnearer, heven⟩ := hchoice
  by_cases hcap : c ≤ f.infinity
  · rw [Nat.min_eq_left hcap]
    have hv : y.units * den ≤ f.units a * den ∨ (f.units (a + 1) * den : ℤ) ≤ y.units * den :=
      (units_le_or_le y a).imp (Int.mul_le_mul_of_nonneg_right · (by omega))
        (Int.mul_le_mul_of_nonneg_right · (by omega))
    have hchosen : (f.units c * den : ℤ) = f.units a * den ∧
          2 * (num : ℤ) ≤ f.units a * den + f.units (a + 1) * den ∨
        (f.units c * den : ℤ) = f.units (a + 1) * den ∧
          f.units a * den + f.units (a + 1) * den ≤ 2 * (num : ℤ) :=
      hnearer.imp (fun h => ⟨by rw [h.1], by exact_mod_cast h.2⟩)
        (fun h => ⟨by rw [h.1], by exact_mod_cast h.2⟩)
    obtain ⟨hle, hmiddle⟩ := natAbs_sub_le_of_chosen (by exact_mod_cast hlow)
      (by exact_mod_cast hhigh) hchosen hv
    exact ⟨hle, fun hne heq => heven (by exact_mod_cast hmiddle hne heq)⟩
  · -- The quotient is past the infinity, so everything is below what is chosen.
    rw [Nat.min_eq_right (by omega)]
    have hy' : y.magnitude.val ≤ f.infinity := by simpa [isNaN] using hy
    have hmono := f.units_strictMono.monotone
    have hinfinity : f.units f.infinity * den ≤ num :=
      Nat.le_trans (Nat.mul_le_mul_right den (hmono (by omega))) hlow
    have hbelow : y.units ≤ f.units f.infinity := by
      have hunits := hmono hy'
      unfold units absUnits
      split <;> omega
    have hscaled : y.units * den ≤ f.units f.infinity * den :=
      Int.mul_le_mul_of_nonneg_right hbelow (by omega)
    have hcast : (f.units f.infinity * den : ℤ) ≤ num := by exact_mod_cast hinfinity
    exact ⟨by omega, fun hne heq => absurd heq (by omega)⟩

/-- The opposite of a number has the opposite value. -/
theorem value_neg (x : Binary f) : x.neg.value = -x.value := by
  obtain ⟨negative, m⟩ := x
  cases negative with
  | false => rfl
  | true => exact (InvolutiveNeg.neg_neg _).symm

/-- What rounds to a number rounds to the opposite one with the other sign. -/
theorem RoundsTo.neg (h : RoundsTo negative q x) : RoundsTo (!negative) (-q) x.neg := by
  have hdistance (y : Binary f) : |y.value - -q| = |y.neg.value - q| := by
    rw [value_neg, ← abs_neg]
    congr 1
    ring
  constructor
  · exact congrArg not h.sign
  · exact h.not_isNaN
  · intro y hy
    rw [hdistance, hdistance, Binary.neg_neg]
    exact h.nearest y.neg hy
  · intro y hy hne heq
    rw [hdistance, hdistance, Binary.neg_neg] at heq
    refine h.even y.neg hy (fun he => hne ?_) heq
    have hvalue := value_neg y
    rw [value_neg]
    linarith

/-- The nearest number is what a quotient is rounded to. -/
theorem roundsTo_nearest (hf : 2 ≤ f.exponentBits) (hfraction : 1 ≤ f.fractionBits)
    (negative : Bool) (num : Nat) (hden : 0 < den) :
    RoundsTo negative (withSign negative (num / (den * f.one)))
      (nearest negative num den : Binary f) := by
  have h := roundsTo_nearest_false hf hfraction num hden
  cases negative with
  | false => exact h
  | true => exact h.neg

/-- A power of ten is a quotient of two natural ones. -/
theorem zpow_ten (e : ℤ) : (10 : ℚ) ^ e = 10 ^ e.toNat / 10 ^ (-e).toNat := by
  obtain ⟨n, rfl | rfl⟩ := e.eq_nat_or_neg
  · simp
  · simp

/-- A decimal number is read as what it rounds to. -/
theorem roundsTo_ofDecimal (hf : 2 ≤ f.exponentBits) (hfraction : 1 ≤ f.fractionBits)
    (d : Decimal) : RoundsTo d.negative d.toRat (ofDecimal d : Binary f) := by
  have hten : 0 < 10 ^ (-d.exponent).toNat := Nat.pow_pos (by decide)
  have hround := roundsTo_nearest hf hfraction d.negative
    (d.coefficient * 10 ^ d.exponent.toNat * f.one) hten
  have hvalue : ((d.coefficient * 10 ^ d.exponent.toNat * f.one : Nat) : ℚ) /
      ((10 ^ (-d.exponent).toNat : Nat) * f.one) = d.coefficient * 10 ^ d.exponent := by
    have hone : (f.one : ℚ) ≠ 0 := by exact_mod_cast f.one_pos.ne'
    rw [zpow_ten, Nat.cast_mul, mul_div_mul_right _ _ hone, ← mul_div_assoc]
    push_cast
    rfl
  rw [hvalue] at hround
  rw [ofDecimal_eq hf]
  exact hround

end Binary

end StackMachine
