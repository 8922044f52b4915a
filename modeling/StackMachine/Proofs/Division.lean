import Mathlib.Data.Int.ModEq
import StackMachine.Proofs.Comparing
import StackMachine.Proofs.Saturation

/-!
# Dividing integers

The quotient of two ints or longs is that of the integers, truncated toward zero, and their
remainder is what the truncation leaves. Only one quotient is out of range, that of the least
number by minus one, and it wraps around to the least number; only a zero divisor is refused.
-/

namespace StackMachine

/-! ### Integers -/

/-- Truncating the exact quotient of two integers is dividing them with truncation. -/
theorem towardZero_intCast_div (a b : ℤ) : towardZero ((a : ℚ) / b) = a.tdiv b := by
  have hnat (m n : Nat) : towardZero ((m : ℚ) / n) = (m : ℤ).tdiv n :=
    (towardZero_natCast_div m n).trans (Int.ofNat_tdiv m n)
  obtain ⟨m, rfl | rfl⟩ := Int.eq_nat_or_neg a <;> obtain ⟨n, rfl | rfl⟩ := Int.eq_nat_or_neg b
  · exact hnat m n
  · rw [Int.cast_neg, div_neg, towardZero_neg, Int.tdiv_neg]
    exact congrArg Neg.neg (hnat m n)
  · rw [Int.cast_neg, neg_div, towardZero_neg, Int.neg_tdiv]
    exact congrArg Neg.neg (hnat m n)
  · rw [Int.cast_neg, Int.cast_neg, neg_div_neg_eq, Int.tdiv_neg, Int.neg_tdiv, neg_neg]
    exact hnat m n

/-- The quotient and the remainder of two integers, of which the second one is not zero, among
numbers that wrap around: how many numbers there are, and which one is the least. -/
structure IsDivision (size : Nat) (least a b q r : ℤ) : Prop where
  quotient : q = if a = least ∧ b = -1 then least else towardZero ((a : ℚ) / b)
  remainder : r = a - b * towardZero ((a : ℚ) / b)
  abs_lt : |r| < |b|
  sign : r = 0 ∨ r.sign = a.sign
  identity : q * b + r ≡ a [ZMOD size]

section

variable {least a b : ℤ}

/-- No quotient is out of range but that of the least number by minus one. -/
theorem tdiv_mem_range (ha : least ≤ a) (ha' : a < -least) (hb : b ≠ 0)
    (hwrap : ¬ (a = least ∧ b = -1)) : least ≤ a.tdiv b ∧ a.tdiv b < -least := by
  have habs : (a.tdiv b).natAbs = a.natAbs / b.natAbs := Int.natAbs_tdiv a b
  by_cases hone : b.natAbs = 1
  · rcases Int.natAbs_eq_iff.1 hone with rfl | rfl
    · rw [Nat.cast_one, Int.tdiv_one]
      exact ⟨ha, ha'⟩
    · rw [Nat.cast_one, Int.tdiv_neg, Int.tdiv_one]
      have hne : a ≠ least := fun he => hwrap ⟨he, rfl⟩
      omega
  · have htwo : 2 ≤ b.natAbs := by omega
    have hhalf : (a.tdiv b).natAbs ≤ a.natAbs / 2 := habs ▸ Nat.div_le_div_left htwo (by decide)
    omega

/-- Truncating division that wraps around gives the quotient and the remainder. -/
theorem isDivision_of_tdiv {size : Nat} (hsize : (size : ℤ) = -2 * least) (ha : least ≤ a)
    (ha' : a < -least) (hb : b ≠ 0) :
    IsDivision size least a b ((a.tdiv b).bmod size) (a.tmod b) where
  quotient := by
    rw [towardZero_intCast_div]
    split
    · rename_i hwrap
      obtain ⟨rfl, rfl⟩ := hwrap
      have hmod : -a % (size : ℤ) = -a := Int.emod_eq_of_lt (by omega) (by omega)
      rw [Int.tdiv_neg, Int.tdiv_one, Int.bmod_def, hmod]
      omega
    · rename_i hwrap
      have hrange := tdiv_mem_range ha ha' hb hwrap
      exact Int.bmod_eq_of_le (by omega) (by omega)
  remainder := by rw [towardZero_intCast_div, Int.tmod_def]
  abs_lt := by
    have habs : (a.tmod b).natAbs < b.natAbs := by
      rw [Int.natAbs_tmod]
      exact Nat.mod_lt _ (Int.natAbs_pos.2 hb)
    rw [Int.abs_eq_natAbs, Int.abs_eq_natAbs]
    exact_mod_cast habs
  sign := by
    rw [Int.sign_tmod, ← Int.sign_eq_zero_iff_zero, Int.sign_tmod]
    split
    · exact .inl rfl
    · exact .inr rfl
  identity := by
    have hmod : (a.tdiv b).bmod size ≡ a.tdiv b [ZMOD size] := Int.bmod_emod
    calc (a.tdiv b).bmod size * b + a.tmod b
        ≡ a.tdiv b * b + a.tmod b [ZMOD size] := (hmod.mul_right b).add_right _
      _ = a := by rw [Int.tmod_def, mul_comm b]; omega

end

/-! ### Instructions -/

/-- An instruction takes two numbers off the stack, the second one first, and fails with a
fault at its own index. -/
def Instruction.Faults (i : Instruction Value) (args : List Value) (f : Fault) : Prop :=
  ∀ (m : Machine) (below : List Value), m.frame.stack = args ++ below →
    Action.step i m = .error ⟨m.frame.pc, .fault f⟩ (m.withStack below)

section

variable {o : Arithmetic} {n : Numeric} {a b c : n.Carrier}

/-- The instruction for an operation pushes what the operation gives. -/
theorem computes_arithmetic (h : o.apply n a b = .ok c) (operand : Operand Value) :
    Instruction.Computes ⟨.arithmetic o n, operand⟩ [.of n.kind b, .of n.kind a]
      (.of n.kind c) :=
  computes_of_binary rfl h

/-- It fails with the fault of the operation. -/
theorem faults_arithmetic {f : Fault} (h : o.apply n a b = .error f) (operand : Operand Value) :
    Instruction.Faults ⟨.arithmetic o n, operand⟩ [.of n.kind b, .of n.kind a] f := by
  intro m below hstack
  let p : Plan := .binary n.kind n.kind (o.apply n)
  let args : Arguments p.demand := (b, a, ())
  have hp : Instruction.plan? ⟨.arithmetic o n, operand⟩ = some p := rfl
  have hargs : m.frame.stack = args.values ++ below := hstack
  have heffect : p.effect args m.store = .error (.fault f) := by
    change ((o.apply n a b).mapError Cause.fault >>= _) = _
    rw [h]
    rfl
  exact Action.step_of_refusal hp hargs heffect

end

/-- The numbers of a kind, which wrap around, are divided with truncation, and instructions do
with the two numbers on top of the stack what the operations do. -/
structure DividesExactly (size : Nat) (least : ℤ) (n : Numeric) (toInt : n.Carrier → ℤ) :
    Prop where
  /-- The only divisor that is refused is zero. -/
  fault : ∀ o : Arithmetic, o = .div ∨ o = .rem → ∀ a b : n.Carrier,
    o.apply n a b = .error .divideByZero ↔ toInt b = 0
  /-- All others have a quotient and a remainder. -/
  divides : ∀ a b : n.Carrier, toInt b ≠ 0 → ∃ q r : n.Carrier,
    Arithmetic.div.apply n a b = .ok q ∧ Arithmetic.rem.apply n a b = .ok r ∧
      IsDivision size least (toInt a) (toInt b) (toInt q) (toInt r)
  /-- The dividend lies under the divisor, and the result takes their place. -/
  computes : ∀ (o : Arithmetic) (operand : Operand Value) (a b c : n.Carrier),
    o.apply n a b = .ok c → Instruction.Computes ⟨.arithmetic o n, operand⟩
      [.of n.kind b, .of n.kind a] (.of n.kind c)
  /-- A fault of the operation is one of the instruction. -/
  faults : ∀ (o : Arithmetic) (operand : Operand Value) (a b : n.Carrier) (f : Fault),
    o.apply n a b = .error f → Instruction.Faults ⟨.arithmetic o n, operand⟩
      [.of n.kind b, .of n.kind a] f

/-- What has to be known of the numbers of a kind and of their division. -/
theorem dividesExactly_of_tdiv {size : Nat} {least : ℤ} {n : Numeric} {toInt : n.Carrier → ℤ}
    (hsize : (size : ℤ) = -2 * least) (hlow : ∀ a, least ≤ toInt a)
    (hhigh : ∀ a, toInt a < -least)
    (hzero : ∀ o : Arithmetic, o = .div ∨ o = .rem → ∀ a b : n.Carrier, toInt b = 0 →
      o.apply n a b = .error .divideByZero)
    (hdiv : ∀ a b : n.Carrier, toInt b ≠ 0 → ∃ q, Arithmetic.div.apply n a b = .ok q ∧
      toInt q = ((toInt a).tdiv (toInt b)).bmod size)
    (hrem : ∀ a b : n.Carrier, toInt b ≠ 0 → ∃ r, Arithmetic.rem.apply n a b = .ok r ∧
      toInt r = (toInt a).tmod (toInt b)) : DividesExactly size least n toInt where
  fault o ho a b := by
    refine ⟨fun hfault => ?_, hzero o ho a b⟩
    by_contra hb
    rcases ho with rfl | rfl
    · obtain ⟨q, hq, -⟩ := hdiv a b hb
      cases hfault.symm.trans hq
    · obtain ⟨r, hr, -⟩ := hrem a b hb
      cases hfault.symm.trans hr
  divides a b hb := by
    obtain ⟨q, hq, hqvalue⟩ := hdiv a b hb
    obtain ⟨r, hr, hrvalue⟩ := hrem a b hb
    refine ⟨q, r, hq, hr, ?_⟩
    rw [hqvalue, hrvalue]
    exact isDivision_of_tdiv hsize (hlow a) (hhigh a) hb
  computes _ operand _ _ _ h := computes_arithmetic h operand
  faults _ operand _ _ _ h := faults_arithmetic h operand

theorem dividesExactly_int :
    DividesExactly UInt32.size Int32.minValue.toInt .int Int32.toInt := by
  have hne {b : Int32} (hb : b.toInt ≠ 0) : b ≠ 0 := fun he => hb (congrArg Int32.toInt he)
  refine dividesExactly_of_tdiv (by decide) Int32.minValue_le_toInt Int32.toInt_lt ?_ ?_ ?_
  · intro o ho (a : Int32) (b : Int32) hb
    obtain rfl : b = 0 := Int32.toInt_inj.1 (hb.trans Int32.toInt_zero.symm)
    rcases ho with rfl | rfl <;> rfl
  · exact fun (a b : Int32) hb => ⟨a / b, if_neg (hne hb), Int32.toInt_div a b⟩
  · exact fun (a b : Int32) hb => ⟨a % b, if_neg (hne hb), Int32.toInt_mod a b⟩

theorem dividesExactly_long :
    DividesExactly UInt64.size Int64.minValue.toInt .long Int64.toInt := by
  have hne {b : Int64} (hb : b.toInt ≠ 0) : b ≠ 0 := fun he => hb (congrArg Int64.toInt he)
  refine dividesExactly_of_tdiv (by decide) Int64.minValue_le_toInt Int64.toInt_lt ?_ ?_ ?_
  · intro o ho (a : Int64) (b : Int64) hb
    obtain rfl : b = 0 := Int64.toInt_inj.1 (hb.trans Int64.toInt_zero.symm)
    rcases ho with rfl | rfl <;> rfl
  · exact fun (a b : Int64) hb => ⟨a / b, if_neg (hne hb), Int64.toInt_div a b⟩
  · exact fun (a b : Int64) hb => ⟨a % b, if_neg (hne hb), Int64.toInt_mod a b⟩

/-- Ints and longs are divided with truncation toward zero. Only a zero divisor is a fault, only
the least number by minus one wraps around, and the remainder is exact, smaller than the divisor
and has the sign of the dividend unless it is zero. -/
theorem integers_divide_exactly :
    DividesExactly UInt32.size Int32.minValue.toInt .int Int32.toInt ∧
      DividesExactly UInt64.size Int64.minValue.toInt .long Int64.toInt :=
  ⟨dividesExactly_int, dividesExactly_long⟩

end StackMachine
