import Mathlib.Data.Rat.Floor
import Mathlib.Order.WithBotTop
import Mathlib.Tactic.FieldSimp
import Mathlib.Tactic.Linarith
import StackMachine.Binary.Conversion
import StackMachine.Proofs.Rounding

/-!
# Exact values

The exact value of a finite number is read off its fields: a fraction with its leading bit
put back, times a power of two. It is the number of units that the number stands for, divided
by the units in one, and units grow strictly with the magnitude. So the ranks by which numbers
are compared are in the order of the exact values, with the infinities at the ends and the
two zeros in one place.
-/

namespace StackMachine

-- Powers of natural numbers mean the same whichever algebra is in scope.
attribute [local instance (10000)] instPowNat

namespace Format

variable (f : Format)

/-- By how much an exponent field exceeds the exponent. -/
def bias : Nat := 2 ^ (f.exponentBits - 1) - 1

@[simp] theorem units_zero : f.units 0 = 0 := if_pos f.leadingBit_pos

/-- A normal number's units, by its exponent and fraction fields. -/
theorem units_normal (e : Nat) {r : Nat} (h : r < f.leadingBit) :
    f.units (f.leadingBit * (e + 1) + r) = (f.leadingBit + r) * 2 ^ e := by
  have hle : f.leadingBit ≤ f.leadingBit * (e + 1) := Nat.le_mul_of_pos_right _ e.succ_pos
  have hdiv : (f.leadingBit * (e + 1) + r) / f.leadingBit = e + 1 := by
    rw [Nat.mul_add_div f.leadingBit_pos, Nat.div_eq_of_lt h, Nat.add_zero]
  rw [units, if_neg (by omega), Nat.mul_add_mod, Nat.mod_eq_of_lt h, hdiv, Nat.shiftLeft_eq,
    Nat.add_sub_cancel]

/-- The next pattern of bits stands for more units. -/
theorem units_lt_succ (m : Nat) : f.units m < f.units (m + 1) := by
  have hpos := f.leadingBit_pos
  by_cases hm : m + 1 < f.leadingBit
  · rw [units, if_pos (by omega), units, if_pos hm]
    exact m.lt_succ_self
  by_cases hlast : m + 1 = f.leadingBit
  · -- The least normal number follows the greatest one without a leading bit.
    have hnext := f.units_normal 0 hpos
    rw [Nat.zero_add, Nat.mul_one, Nat.add_zero, Nat.pow_zero, Nat.mul_one] at hnext
    rw [hlast, hnext, units, if_pos (by omega)]
    omega
  obtain ⟨e, he⟩ : ∃ e, m / f.leadingBit = e + 1 :=
    Nat.exists_eq_add_one.2 (Nat.div_pos (by omega) hpos)
  have hr := Nat.mod_lt m hpos
  have hsplit := Nat.div_add_mod m f.leadingBit
  rw [he] at hsplit
  generalize m % f.leadingBit = r at hr hsplit
  have hm := f.units_normal e hr
  rw [hsplit] at hm
  have htwo := Nat.two_pow_pos e
  rw [hm]
  by_cases hcarry : r + 1 < f.leadingBit
  · have hnext := f.units_normal e hcarry
    rw [← Nat.add_assoc, hsplit] at hnext
    rw [hnext]
    exact Nat.mul_lt_mul_of_pos_right (by omega) htwo
  · -- The fraction is full, so the next number begins with the next power of two.
    have hnext := f.units_normal (e + 1) hpos
    have hsucc : f.leadingBit * (e + 1 + 1) + 0 = m + 1 := by
      rw [Nat.mul_succ]
      omega
    rw [hsucc, Nat.add_zero, Nat.pow_succ, ← Nat.mul_assoc, Nat.mul_right_comm] at hnext
    rw [hnext]
    exact Nat.mul_lt_mul_of_pos_right (by omega) htwo

/-- Units grow strictly with the magnitude. -/
theorem units_strictMono : StrictMono f.units := strictMono_nat_of_lt_succ f.units_lt_succ

theorem one_pos : 0 < f.one := Nat.two_pow_pos _

variable {f}

theorem infinity_pos (hf : 2 ≤ f.exponentBits) : 0 < f.infinity := by
  have hfields : 2 ≤ 2 ^ f.exponentBits := Nat.le_self_pow (by omega) 2
  exact Nat.mul_pos (by omega) f.leadingBit_pos

/-- A power of two that is counted in units. -/
theorem two_zpow_eq (hf : 2 ≤ f.exponentBits) (e : Nat) :
    (2 : ℚ) ^ (((e + 1 : Nat) : ℤ) - f.bias) = 2 ^ e * 2 ^ f.fractionBits / f.one := by
  have hbias : 2 ≤ 2 ^ (f.exponentBits - 1) := Nat.le_self_pow (by omega) 2
  have hscale : (((e + 1 : Nat) : ℤ) - f.bias) = e + f.fractionBits - f.scale := by
    unfold bias scale
    omega
  have hone : ((f.one : Nat) : ℚ) = 2 ^ f.scale := by
    unfold one
    exact_mod_cast rfl
  rw [hscale, zpow_sub₀ two_ne_zero, zpow_add₀ two_ne_zero, zpow_natCast, zpow_natCast,
    zpow_natCast, hone]

end Format

/-- The rational numbers with an infinity at either end. -/
abbrev ExtendedRat := WithBotTop ℚ

namespace ExtendedRat

theorem bot_lt_coe (q : ℚ) : (⊥ : ExtendedRat) < q := WithBot.bot_lt_coe _

theorem coe_lt_top (q : ℚ) : (q : ExtendedRat) < ⊤ := WithBot.coe_lt_coe.2 (WithTop.coe_lt_top q)

end ExtendedRat

namespace Binary

variable {f : Format}

/-- The exponent field of a number. -/
def exponentField (x : Binary f) : Nat := x.magnitude / f.leadingBit

/-- The fraction field of a number. -/
def fractionField (x : Binary f) : Nat := x.magnitude % f.leadingBit

/-- The exact value of a finite number. The leading bit is one unless the exponent field is
zero, which stands for the same exponent as the field one. -/
def value (x : Binary f) : ℚ :=
  let fraction : ℚ := x.fractionField / 2 ^ f.fractionBits
  let absolute : ℚ :=
    if x.exponentField = 0 then fraction * 2 ^ ((1 : ℤ) - f.bias)
    else (1 + fraction) * 2 ^ ((x.exponentField : ℤ) - f.bias)
  if x.negative then -absolute else absolute

/-- The exact value of a number that is not a NaN, infinities included. -/
def extended (x : Binary f) : ExtendedRat :=
  if x.isInfinite then if x.negative then ⊥ else ⊤ else x.value

/-- The exact value is the number of units, in ones. -/
theorem value_eq_units (hf : 2 ≤ f.exponentBits) (x : Binary f) : x.value = x.units / f.one := by
  have hlead : ((f.leadingBit : Nat) : ℚ) = 2 ^ f.fractionBits := by
    unfold Format.leadingBit
    exact_mod_cast rfl
  have hpow : (2 : ℚ) ^ f.fractionBits ≠ 0 := pow_ne_zero _ two_ne_zero
  have hsplit := Nat.div_add_mod x.magnitude.val f.leadingBit
  have hr := Nat.mod_lt x.magnitude.val f.leadingBit_pos
  have habs : (if x.exponentField = 0 then
      (x.fractionField : ℚ) / 2 ^ f.fractionBits * 2 ^ ((1 : ℤ) - f.bias)
      else (1 + (x.fractionField : ℚ) / 2 ^ f.fractionBits) *
        2 ^ ((x.exponentField : ℤ) - f.bias)) = (x.absUnits : ℚ) / f.one := by
    unfold exponentField fractionField absUnits
    split
    · rename_i hzero
      rw [hzero, Nat.mul_zero, Nat.zero_add] at hsplit
      have hpower := Format.two_zpow_eq hf 0
      rw [Nat.zero_add, Nat.cast_one, pow_zero, one_mul] at hpower
      rw [hpower, hsplit, Format.units, if_pos (hsplit ▸ hr)]
      field_simp
    · rename_i hne
      obtain ⟨e, he⟩ := Nat.exists_eq_succ_of_ne_zero hne
      rw [he, Nat.succ_eq_add_one] at hsplit ⊢
      have hunits := f.units_normal e hr
      rw [hsplit] at hunits
      rw [Format.two_zpow_eq hf e, hunits, Nat.cast_mul, Nat.cast_add, hlead, Nat.cast_pow,
        Nat.cast_two]
      field_simp
  unfold value units
  dsimp only
  rw [habs]
  split
  · rw [Int.cast_neg, Int.cast_natCast, neg_div]
  · rw [Int.cast_natCast]

/-- A whole number of ones has that number as its value. -/
theorem value_of_units (hf : 2 ≤ f.exponentBits) {x : Binary f} {n : Int}
    (h : x.units = n * f.one) : x.value = n := by
  have hone : (f.one : ℚ) ≠ 0 := by exact_mod_cast f.one_pos.ne'
  rw [value_eq_units hf, h, Int.cast_mul, Int.cast_natCast, mul_div_cancel_right₀ _ hone]

/-! ### The order of values -/

/-- Growing absolutely with zero in place, a function keeps the order of signed numbers. -/
theorem signed_lt_signed_iff {g : Nat → Nat} (hg : StrictMono g) (hzero : g 0 = 0) (a b : Bool)
    (m n : Nat) :
    (if a then -(g m : Int) else g m) < (if b then -(g n : Int) else g n) ↔
      (if a then -(m : Int) else m) < (if b then -(n : Int) else n) := by
  have hlt (i j : Nat) : g i < g j ↔ i < j := hg.lt_iff_lt
  have hm := hlt 0 m
  have hn := hlt 0 n
  rw [hzero] at hm hn
  have hmn := hlt m n
  have hnm := hlt n m
  cases a <;> cases b <;> simp only [Bool.false_eq_true, if_true, if_false] <;> omega

/-- Numbers are ordered by their patterns, with their signs, as they are by their units. -/
theorem units_lt_units_iff (x y : Binary f) : x.units < y.units ↔ x.rank < y.rank :=
  signed_lt_signed_iff f.units_strictMono f.units_zero x.negative y.negative x.magnitude y.magnitude

theorem value_lt_value_iff (hf : 2 ≤ f.exponentBits) (x y : Binary f) :
    x.value < y.value ↔ x.rank < y.rank := by
  have hone : (0 : ℚ) < f.one := by exact_mod_cast f.one_pos
  rw [value_eq_units hf, value_eq_units hf, div_lt_div_iff_of_pos_right hone, Int.cast_lt,
    units_lt_units_iff]

/-- A finite number is its value. -/
theorem extended_of_isFinite {x : Binary f} (h : x.isFinite) :
    x.extended = x.value := by
  have hlt : x.magnitude.val < f.infinity := by simpa [isFinite] using h
  have hne : ¬ x.isInfinite := by
    simp only [isInfinite, decide_eq_true_eq]
    omega
  exact if_neg hne

/-- Both zeros have the value zero. -/
theorem extended_zero (hf : 2 ≤ f.exponentBits) (negative : Bool) :
    (zero negative : Binary f).extended = ((0 : ℚ) : ExtendedRat) := by
  have hmag : (zero negative : Binary f).magnitude.val = 0 := Nat.zero_mod _
  have hfinite : (zero negative : Binary f).isFinite := by
    simpa [isFinite, hmag] using Format.infinity_pos hf
  have hunits : (zero negative : Binary f).units = 0 := by simp [units, absUnits, hmag]
  rw [extended_of_isFinite hfinite, value_eq_units hf, hunits, Int.cast_zero, zero_div]

/-- A number is a NaN, an infinity or finite. -/
theorem isFinite_of_not_isNaN {x : Binary f} (hnan : ¬ x.isNaN) (hinf : ¬ x.isInfinite) :
    x.isFinite := by
  simp only [isNaN, isInfinite, isFinite, decide_eq_true_eq] at *
  omega

/-- A finite number is no NaN. -/
theorem not_isNaN_of_isFinite {x : Binary f} (h : x.isFinite) : ¬ x.isNaN := by
  simp only [isNaN, isFinite, decide_eq_true_eq] at *
  omega

theorem not_isNaN_of_isInfinite {x : Binary f} (h : x.isInfinite) : ¬ x.isNaN := by
  simp only [isNaN, isInfinite, decide_eq_true_eq] at *
  omega

/-- Where the numbers that are not NaNs lie among the extended values and among the ranks. -/
inductive Lies (x : Binary f) : Prop where
  | below (extended : x.extended = ⊥) (rank : x.rank = -(f.infinity : Int))
  | among (extended : x.extended = x.value) (low : -(f.infinity : Int) < x.rank)
      (high : x.rank < f.infinity)
  | above (extended : x.extended = ⊤) (rank : x.rank = f.infinity)

/-- Every number that is no NaN lies where its pattern tells. -/
theorem lies {x : Binary f} (h : ¬ x.isNaN) : x.Lies := by
  by_cases hinf : x.isInfinite
  · have hmag : x.magnitude.val = f.infinity := by simpa [isInfinite] using hinf
    cases hneg : x.negative with
    | true => exact .below (by simp [extended, hinf, hneg]) (by simp [rank, hneg, hmag])
    | false => exact .above (by simp [extended, hinf, hneg]) (by simp [rank, hneg, hmag])
  · have hfinite := isFinite_of_not_isNaN h hinf
    have hlt : x.magnitude.val < f.infinity := by simpa [isFinite] using hfinite
    refine .among (extended_of_isFinite hfinite) ?_ ?_ <;> unfold rank <;> split <;> omega

/-- Numbers that are not NaNs have their ranks in the order of their values. -/
theorem extended_lt_extended_iff (hf : 2 ≤ f.exponentBits) {x y : Binary f} (hx : ¬ x.isNaN)
    (hy : ¬ y.isNaN) : x.extended < y.extended ↔ x.rank < y.rank := by
  have hvalue := value_lt_value_iff hf x y
  have hpos := Format.infinity_pos hf
  rcases lies hx with ⟨ex, rx⟩ | ⟨ex, lx, ux⟩ | ⟨ex, rx⟩ <;>
    rcases lies hy with ⟨ey, ry⟩ | ⟨ey, ly, uy⟩ | ⟨ey, ry⟩ <;>
    rw [ex, ey] <;>
    simp only [lt_self_iff_false, ExtendedRat.bot_lt_coe, ExtendedRat.coe_lt_top, bot_lt_top,
      not_lt_bot, not_top_lt, WithBotTop.coe_lt_coe, hvalue, true_iff, false_iff] <;>
    omega

/-- Two numbers that are not NaNs compare as their values do. -/
theorem compare?_eq (hf : 2 ≤ f.exponentBits) {x y : Binary f} (hx : ¬ x.isNaN) (hy : ¬ y.isNaN) :
    x.compare? y = some (compare x.extended y.extended) := by
  have hxy := extended_lt_extended_iff hf hx hy
  have hyx := extended_lt_extended_iff hf hy hx
  have hnan : ¬ (x.isNaN || y.isNaN) = true := by simp [hx, hy]
  rw [compare?, if_neg hnan]
  congr 1
  rcases lt_trichotomy x.extended y.extended with h | h | h
  · rw [compare_lt_iff_lt.2 h, compare_lt_iff_lt.2 (hxy.1 h)]
  · have hrank : x.rank = y.rank := by
      rw [h, lt_self_iff_false, false_iff] at hxy hyx
      omega
    rw [compare_eq_iff_eq.2 h, compare_eq_iff_eq.2 hrank]
  · rw [compare_gt_iff_gt.2 h, compare_gt_iff_gt.2 (hyx.1 h)]

end Binary

end StackMachine
