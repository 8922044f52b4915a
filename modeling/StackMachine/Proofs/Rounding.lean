import StackMachine.Decimal.Basic

/-!
# Rounding

Rounding depends on the value of a quotient only, not on how the quotient is written,
and a number of the format rounds to itself. The bounds beyond which decimal exponents
are not multiplied out change nothing: past them the quotient rounds to an infinity or
to zero anyway.
-/

namespace StackMachine

-- Powers of natural numbers mean the same whichever algebra is in scope.
attribute [local instance (10000)] instPowNat

/-- A quotient is rounded in the same way when it is expanded. -/
theorem roundHalfEven_mul (num den : Nat) {k : Nat} (hk : 0 < k) :
    roundHalfEven (num * k) (den * k) = roundHalfEven num den := by
  have hlt : 2 * (num % den * k) < den * k ↔ 2 * (num % den) < den := by
    rw [← Nat.mul_assoc]
    exact Nat.mul_lt_mul_right hk
  have hgt : den * k < 2 * (num % den * k) ↔ den < 2 * (num % den) := by
    rw [← Nat.mul_assoc]
    exact Nat.mul_lt_mul_right hk
  unfold roundHalfEven
  simp only [Nat.mul_div_mul_right _ _ hk, Nat.mul_mod_mul_right, hlt, hgt]

namespace Format

variable (f : Format)

theorem leadingBit_pos : 0 < f.leadingBit := Nat.two_pow_pos _

/-- Rounding with a given spacing around the quotient. -/
theorem nearest_of_shift {num den shift : Nat} (h : (num / den).log2 - f.fractionBits = shift) :
    f.nearest num den =
      min (shift * f.leadingBit + roundHalfEven num (den <<< shift)) f.infinity := by
  unfold nearest
  rw [h]

theorem nearest_mul (num den : Nat) {k : Nat} (hk : 0 < k) :
    f.nearest (num * k) (den * k) = f.nearest num den := by
  have hshift (s : Nat) : (den * k) <<< s = den <<< s * k := by
    rw [Nat.shiftLeft_eq, Nat.shiftLeft_eq, Nat.mul_right_comm]
  unfold nearest
  simp only [Nat.mul_div_mul_right _ _ hk, hshift, roundHalfEven_mul _ _ hk]

/-- Equal quotients round to the same number. -/
theorem nearest_congr {num den num' den' : Nat} (hden : 0 < den) (hden' : 0 < den')
    (h : num * den' = num' * den) : f.nearest num den = f.nearest num' den' := by
  rw [← f.nearest_mul num den hden', h, Nat.mul_comm den den', f.nearest_mul num' den' hden]

/-- A finite number of the format is the number nearest to it. -/
theorem nearest_units {m : Nat} (h : m < f.infinity) : f.nearest (f.units m) 1 = m := by
  by_cases hm : m < f.leadingBit
  · have hshift : (m / 1).log2 - f.fractionBits = 0 := by
      rw [Nat.div_one]
      by_cases hz : m = 0
      · rw [hz]
        exact Nat.zero_sub _
      · have := (Nat.log2_lt hz).2 hm
        omega
    rw [units, if_pos hm, f.nearest_of_shift hshift, Nat.zero_mul, Nat.zero_add,
      Nat.shiftLeft_zero, roundHalfEven_one]
    exact Nat.min_eq_left (Nat.le_of_lt h)
  · have hpos := f.leadingBit_pos
    have hexp : 1 ≤ m / f.leadingBit := (Nat.one_le_div_iff hpos).2 (Nat.le_of_not_lt hm)
    have hfrac := Nat.mod_lt m hpos
    have hsplit := Nat.div_add_mod m f.leadingBit
    generalize hs : m / f.leadingBit - 1 = s
    have hunits : f.units m = (f.leadingBit + m % f.leadingBit) * 2 ^ s := by
      rw [units, if_neg hm, Nat.shiftLeft_eq, hs]
    have hlog : (f.units m).log2 = f.fractionBits + s := by
      have hne : f.units m ≠ 0 := by
        rw [hunits]
        exact Nat.mul_ne_zero (by omega) (Nat.ne_of_gt (Nat.two_pow_pos s))
      refine (Nat.log2_eq_iff hne).2 ⟨?_, ?_⟩
      · rw [hunits, Nat.pow_add]
        exact Nat.mul_le_mul_right _ (Nat.le_add_right _ _)
      · rw [hunits, show f.fractionBits + s + 1 = f.fractionBits + 1 + s by omega, Nat.pow_add,
          Nat.pow_succ]
        refine Nat.mul_lt_mul_of_pos_right ?_ (Nat.two_pow_pos s)
        change f.leadingBit + m % f.leadingBit < f.leadingBit * 2
        omega
    have hshift : (f.units m / 1).log2 - f.fractionBits = s := by
      rw [Nat.div_one, hlog, Nat.add_sub_cancel_left]
    rw [f.nearest_of_shift hshift, hunits, Nat.shiftLeft_eq,
      roundHalfEven_mul _ _ (Nat.two_pow_pos s), roundHalfEven_one]
    have hsum : s * f.leadingBit + (f.leadingBit + m % f.leadingBit) = m := by
      rw [← Nat.add_assoc, ← Nat.succ_mul, show s.succ = m / f.leadingBit by omega, Nat.mul_comm]
      exact hsplit
    rw [hsum]
    exact Nat.min_eq_left (Nat.le_of_lt h)

/-- A quotient below half a unit rounds to zero. -/
theorem nearest_of_lt {num den : Nat} (h : 2 * num < den) : f.nearest num den = 0 := by
  have hdiv : num / den = 0 := Nat.div_eq_of_lt (by omega)
  have hround : roundHalfEven num den = 0 := by
    unfold roundHalfEven
    simp only [hdiv, Nat.mod_eq_of_lt (show num < den by omega), if_pos h]
  have hshift : (num / den).log2 - f.fractionBits = 0 := by
    rw [hdiv, Nat.log2_zero, Nat.zero_sub]
  rw [f.nearest_of_shift hshift, Nat.zero_mul, Nat.shiftLeft_zero, hround]
  exact Nat.zero_min _

/-- A quotient past the finite numbers rounds to the infinity. -/
theorem nearest_of_le {num den : Nat}
    (h : f.leadingBit * 2 ^ ((2 : Nat) ^ f.exponentBits - 2) ≤ num / den) :
    f.nearest num den = f.infinity := by
  have hpos := Nat.mul_pos f.leadingBit_pos (Nat.two_pow_pos (2 ^ f.exponentBits - 2))
  have hne : num / den ≠ 0 := by omega
  have hlog : f.fractionBits + (2 ^ f.exponentBits - 2) ≤ (num / den).log2 := by
    refine (Nat.le_log2 hne).2 ?_
    rw [Nat.pow_add]
    exact h
  obtain ⟨s, hs⟩ := Nat.exists_eq_add_of_le (Nat.le_of_add_right_le hlog)
  have hshift : (num / den).log2 - f.fractionBits = s := by omega
  have hround : f.leadingBit ≤ roundHalfEven num (den <<< s) := by
    have hle : f.leadingBit ≤ num / (den <<< s) := by
      rw [Nat.shiftLeft_eq, ← Nat.div_div_eq_div_mul]
      refine (Nat.le_div_iff_mul_le (Nat.two_pow_pos s)).2 ?_
      have hself := Nat.log2_self_le hne
      rwa [hs, Nat.pow_add] at hself
    rcases roundHalfEven_cases num (den <<< s) with hr | hr <;> omega
  have hbound : f.infinity ≤ s * f.leadingBit + f.leadingBit := by
    rw [← Nat.succ_mul]
    exact Nat.mul_le_mul_right _ (by omega)
  rw [f.nearest_of_shift hshift]
  exact Nat.min_eq_right (by omega)

end Format

namespace Binary

variable {f : Format}

/-- The bound on decimal exponents is past the powers of two that matter. -/
theorem two_pow_le_ten_pow (f : Format) :
    2 ^ (2 ^ (f.exponentBits - 1) + f.fractionBits) ≤ 10 ^ (decimalRange f + 1) := by
  calc 2 ^ (2 ^ (f.exponentBits - 1) + f.fractionBits)
      ≤ 2 ^ (3 * (decimalRange f + 1)) := by
        refine Nat.pow_le_pow_right (by decide) ?_
        unfold decimalRange
        omega
    _ = 8 ^ (decimalRange f + 1) := Nat.pow_mul 2 3 _
    _ ≤ 10 ^ (decimalRange f + 1) := Nat.pow_le_pow_left (by decide) _

/-- Reading a decimal number rounds its value, however large its exponent is. -/
theorem ofDecimal_eq (hf : 2 ≤ f.exponentBits) (d : Decimal) :
    (ofDecimal d : Binary f) =
      nearest d.negative (d.coefficient * 10 ^ d.exponent.toNat * f.one)
        (10 ^ (-d.exponent).toNat) := by
  have hhalf : 2 ^ f.exponentBits = 2 ^ (f.exponentBits - 1) * 2 := by
    rw [← Nat.pow_succ]
    congr 1
    omega
  have htwo : 2 ≤ 2 ^ (f.exponentBits - 1) := Nat.le_self_pow (by omega) 2
  have hten := two_pow_le_ten_pow f
  unfold ofDecimal
  by_cases hzero : d.coefficient = 0
  · rw [if_pos hzero, hzero, Nat.zero_mul, Nat.zero_mul, nearest,
      f.nearest_zero _ (Nat.pow_pos (by decide))]
    rfl
  rw [if_neg hzero]
  by_cases hlarge : (decimalRange f : Int) < d.exponent
  · have hneg : (-d.exponent).toNat = 0 := by omega
    rw [if_pos hlarge, hneg, Nat.pow_zero, nearest, f.nearest_of_le]
    · rfl
    · rw [Nat.div_one]
      have hexp : decimalRange f + 1 ≤ d.exponent.toNat := by omega
      have hpow : 10 ^ (decimalRange f + 1) ≤ d.coefficient * 10 ^ d.exponent.toNat :=
        Nat.le_trans (Nat.pow_le_pow_right (by decide) hexp)
          (Nat.le_mul_of_pos_left _ (Nat.pos_of_ne_zero hzero))
      refine Nat.le_trans ?_ (Nat.mul_le_mul_right f.one (Nat.le_trans hten hpow))
      unfold Format.leadingBit Format.one Format.scale
      rw [← Nat.pow_add, ← Nat.pow_add]
      exact Nat.pow_le_pow_right (by decide) (by omega)
  rw [if_neg hlarge]
  by_cases hsmall : d.exponent + (d.coefficient.log2 + 1) < -(decimalRange f : Int)
  · have hpos : d.exponent.toNat = 0 := by omega
    rw [if_pos hsmall, hpos, Nat.pow_zero, Nat.mul_one, nearest, f.nearest_of_lt]
    · rfl
    · have hexp : d.coefficient.log2 + 1 + (decimalRange f + 1) ≤ (-d.exponent).toNat := by omega
      have hone : 2 * f.one ≤ 2 ^ (2 ^ (f.exponentBits - 1) + f.fractionBits) := by
        unfold Format.one Format.scale
        rw [← Nat.pow_succ']
        exact Nat.pow_le_pow_right (by decide) (by omega)
      have hcoefficient : d.coefficient < 10 ^ (d.coefficient.log2 + 1) :=
        Nat.lt_of_lt_of_le Nat.lt_log2_self (Nat.pow_le_pow_left (by decide) _)
      calc 2 * (d.coefficient * f.one)
          = d.coefficient * (2 * f.one) := Nat.mul_left_comm ..
        _ ≤ d.coefficient * 10 ^ (decimalRange f + 1) :=
          Nat.mul_le_mul_left _ (Nat.le_trans hone hten)
        _ < 10 ^ (d.coefficient.log2 + 1) * 10 ^ (decimalRange f + 1) :=
          Nat.mul_lt_mul_of_pos_right hcoefficient (Nat.pow_pos (by decide))
        _ = 10 ^ (d.coefficient.log2 + 1 + (decimalRange f + 1)) := (Nat.pow_add ..).symm
        _ ≤ 10 ^ (-d.exponent).toNat := Nat.pow_le_pow_right (by decide) hexp
  rw [if_neg hsmall]

/-- Zeros at the end of the coefficient count like the exponent. -/
theorem ofDecimal_scale (hf : 2 ≤ f.exponentBits) (negative : Bool) (n : Nat) (e : Int) (k : Nat) :
    (ofDecimal ⟨negative, n * 10 ^ k, e - k⟩ : Binary f) = ofDecimal ⟨negative, n, e⟩ := by
  rw [ofDecimal_eq hf, ofDecimal_eq hf]
  unfold nearest
  refine congrArg (ofParts negative)
    (f.nearest_congr (Nat.pow_pos (by decide)) (Nat.pow_pos (by decide)) ?_)
  dsimp only
  have hexp : k + (e - k).toNat + (-e).toNat = e.toNat + (-(e - k)).toNat := by omega
  calc n * 10 ^ k * 10 ^ (e - k).toNat * f.one * 10 ^ (-e).toNat
      = n * 10 ^ (k + (e - k).toNat + (-e).toNat) * f.one := by
        rw [Nat.pow_add, Nat.pow_add]
        ac_rfl
    _ = n * 10 ^ (e.toNat + (-(e - k)).toNat) * f.one := by rw [hexp]
    _ = n * 10 ^ e.toNat * f.one * 10 ^ (-(e - k)).toNat := by
        rw [Nat.pow_add]
        ac_rfl

/-- The sign of a decimal number is that of the number read. -/
theorem ofDecimal_sign (hf : 2 ≤ f.exponentBits) (negative : Bool) (n : Nat) (e : Int) :
    (ofDecimal ⟨negative, n, e⟩ : Binary f) =
      { (ofDecimal ⟨false, n, e⟩ : Binary f) with negative := negative } := by
  rw [ofDecimal_eq hf, ofDecimal_eq hf]
  rfl

end Binary

end StackMachine
