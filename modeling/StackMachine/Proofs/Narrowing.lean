import StackMachine.Proofs.CompactForms
import StackMachine.Proofs.Division

/-!
# Narrowing and shifting

Narrowing keeps the low bits of a number, and these are all that sums, differences, products and
bitwise operations look at for the low bits of their results. So it makes no difference whether one
narrows before such an operation as well as after it. Shifting to the left multiplies by a power of
two, and here too only low bits count. Shifting to the right divides by one, of the number itself or
of the number that its bits are without a sign, which differ for negative numbers only.
-/

namespace StackMachine

-- Powers of natural numbers mean the same whichever algebra is in scope.
attribute [local instance (10000)] instPowNat

/-! ### What is exact -/

/-- What an operation that never fails makes of two integers, before it wraps around. -/
def Arithmetic.unwrapped? : Arithmetic → Option (ℤ → ℤ → ℤ)
  | add => some (· + ·)
  | sub => some (· - ·)
  | mul => some (· * ·)
  | div | rem => none

/-- The number of places by which the bits of a number of some width are shifted. -/
def Shift.places (width : Nat) (amount : Int32) : Nat := (amount.toInt % width).toNat

/-- A narrowing of longs keeps the low bits, and what is computed from narrowed numbers is what
comes of narrowing what is computed from the numbers themselves. -/
structure NarrowsLongs (narrow : Int64 → Int32) : Prop where
  value : ∀ a, (narrow a).toInt = a.toInt.bmod (2 ^ 32)
  arithmetic : ∀ (o : Arithmetic) (f : ℤ → ℤ → ℤ), o.unwrapped? = some f → ∀ a b : Int64,
    ∃ c : Int64, o.apply .long a b = .ok c ∧ c.toInt = (f a.toInt b.toInt).bmod (2 ^ 64) ∧
      o.apply .int (narrow a) (narrow b) = .ok (narrow c)
  bitwise : ∀ (o : Bitwise) (a b : Int64),
    narrow (o.apply .long a b) = o.apply .int (narrow a) (narrow b)
  negate : ∀ a : Int64, narrow (Numeric.long.negate a) = Numeric.int.negate (narrow a)
  /-- A shift by so many places that no bit of the narrowed number is left is another matter: the
  narrowed number is shifted by fewer places. -/
  shiftLeft : ∀ (a : Int64) (amount : Int32), Shift.places 64 amount < 32 →
    narrow (Shift.left.apply .long a amount) = Shift.left.apply .int (narrow a) amount

/-- A narrowing of ints reduces their values in a way, and it makes no difference whether numbers
are narrowed as well before an operation whose result is. -/
structure NarrowsInts (narrow : Int32 → Int32) (reduce : ℤ → ℤ) : Prop where
  value : ∀ a, (narrow a).toInt = reduce a.toInt
  arithmetic : ∀ (o : Arithmetic) (f : ℤ → ℤ → ℤ), o.unwrapped? = some f → ∀ a b : Int32,
    ∃ c d : Int32, o.apply .int a b = .ok c ∧ c.toInt = (f a.toInt b.toInt).bmod (2 ^ 32) ∧
      o.apply .int (narrow a) (narrow b) = .ok d ∧ narrow c = narrow d
  bitwise : ∀ (o : Bitwise) (a b : Int32),
    narrow (o.apply .int a b) = narrow (o.apply .int (narrow a) (narrow b))

/-- The numbers of a kind are shifted by multiplying or dividing them by a power of two. -/
structure ShiftsExactly (width : Nat) (n : Integral) (toInt : n.Carrier → ℤ) : Prop where
  left : ∀ (a : n.Carrier) (amount : Int32), toInt (Shift.left.apply n a amount) =
    (toInt a * (2 ^ Shift.places width amount : Nat)).bmod (2 ^ width)
  right : ∀ (a : n.Carrier) (amount : Int32), toInt (Shift.right.apply n a amount) =
    ⌊(toInt a : ℚ) / (2 ^ Shift.places width amount : Nat)⌋
  /-- The bits are read without a sign before the shift, and with one after it. -/
  unsignedRight : ∀ (a : n.Carrier) (amount : Int32),
    toInt (Shift.unsignedRight.apply n a amount) =
      ⌊((toInt a % (2 ^ width : Nat) : ℤ) : ℚ) / (2 ^ Shift.places width amount : Nat)⌋.bmod
        (2 ^ width)
  unsignedRight_eq_iff : ∀ (a : n.Carrier) (amount : Int32),
    Shift.unsignedRight.apply n a amount = Shift.right.apply n a amount ↔
      0 ≤ toInt a ∨ Shift.places width amount = 0

/-! ### Shifting bits -/

section

variable {w : Nat}

/-- Without a sign, bits denote the residue of what they denote with one. -/
theorem toInt_emod_two_pow (x : BitVec w) : x.toInt % (2 ^ w : Nat) = x.toNat := by
  rw [BitVec.toInt_eq_toNat_bmod, Int.bmod_emod]
  exact Int.emod_eq_of_lt (by omega) (by exact_mod_cast x.isLt)

/-- A shift to the left multiplies by a power of two and wraps around. -/
theorem toInt_shiftLeft_eq (x : BitVec w) (k : Nat) :
    (x <<< k).toInt = (x.toInt * (2 ^ k : Nat)).bmod (2 ^ w) := by
  rw [BitVec.toInt_shiftLeft, Nat.shiftLeft_eq, Int.natCast_mul, ← toInt_emod_two_pow,
    ← Int.bmod_mul_bmod, Int.emod_bmod, Int.bmod_mul_bmod]

/-- A shift to the right that keeps the sign divides by a power of two and rounds down. -/
theorem toInt_sshiftRight_eq (x : BitVec w) (k : Nat) :
    (x.sshiftRight k).toInt = ⌊(x.toInt : ℚ) / (2 ^ k : Nat)⌋ := by
  rw [BitVec.toInt_sshiftRight, Int.shiftRight_eq_div_pow, Rat.floor_intCast_div_natCast]

/-- A shift to the right without sign divides the unsigned number. -/
theorem toInt_ushiftRight_eq (x : BitVec w) (k : Nat) :
    (x >>> k).toInt = ⌊((x.toInt % (2 ^ w : Nat) : ℤ) : ℚ) / (2 ^ k : Nat)⌋.bmod (2 ^ w) := by
  rw [BitVec.toInt_eq_toNat_bmod, BitVec.toNat_ushiftRight, Nat.shiftRight_eq_div_pow,
    Rat.floor_intCast_div_natCast, toInt_emod_two_pow]
  rfl

/-- The two shifts to the right differ in the sign that they leave. -/
theorem ushiftRight_eq_sshiftRight_iff (x : BitVec w) (k : Nat) :
    x >>> k = x.sshiftRight k ↔ 0 ≤ x.toInt ∨ k = 0 := by
  have hsign : 0 ≤ x.toInt ↔ x.msb = false := by
    rw [BitVec.msb_eq_toInt, decide_eq_false_iff_not, not_lt]
  rw [hsign]
  constructor
  · intro heq
    have hmsb := congrArg BitVec.msb heq
    rw [BitVec.msb_ushiftRight, BitVec.msb_sshiftRight] at hmsb
    rcases Nat.eq_zero_or_pos k with hk | hk
    · exact .inr hk
    · rw [decide_eq_true hk] at hmsb
      exact .inl hmsb.symm
  · rintro (hmsb | rfl)
    · exact (BitVec.sshiftRight_eq_of_msb_false hmsb).symm
    · rw [BitVec.ushiftRight_zero, BitVec.sshiftRight_zero]

/-- Numbers that are shifted as their bits are, by the right number of places, are shifted
exactly. -/
theorem shiftsExactly_of_bits {n : Integral} {bits : n.Carrier → BitVec w}
    (hinj : Function.Injective bits)
    (hleft : ∀ a amount, bits (Shift.left.apply n a amount) = bits a <<< Shift.places w amount)
    (hright : ∀ a amount,
      bits (Shift.right.apply n a amount) = (bits a).sshiftRight (Shift.places w amount))
    (hunsigned : ∀ a amount,
      bits (Shift.unsignedRight.apply n a amount) = bits a >>> Shift.places w amount) :
    ShiftsExactly w n fun a => (bits a).toInt where
  left a amount := by rw [hleft, toInt_shiftLeft_eq]
  right a amount := by rw [hright, toInt_sshiftRight_eq]
  unsignedRight a amount := by rw [hunsigned, toInt_ushiftRight_eq]
  unsignedRight_eq_iff a amount := by
    rw [← ushiftRight_eq_sshiftRight_iff, ← hright, ← hunsigned, hinj.eq_iff]

/-- The amount of a shift is counted modulo the width, whether its sign is minded in this or not. -/
theorem toNat_smod_eq_places (width : Nat) {amount : Int32} {x y : BitVec w}
    (hx : x.toInt = amount.toInt) (hy : y.toInt = width) (hwidth : 0 < width) :
    (x.smod y).toNat = Shift.places width amount := by
  have hvalue : (x.smod y).toInt = amount.toInt % width := by
    rw [BitVec.toInt_smod, hx, hy, Int.fmod_eq_emod_of_nonneg _ (Int.natCast_nonneg width)]
  have hnonneg : 0 ≤ (x.smod y).toInt := hvalue ▸ Int.emod_nonneg _ (by omega)
  have hlt : (x.smod y).toInt < (2 ^ w : Nat) := by
    have htwo : 2 * (x.smod y).toInt < 2 ^ w := BitVec.two_mul_toInt_lt
    push_cast
    omega
  have hbits := toInt_emod_two_pow (x.smod y)
  rw [Int.emod_eq_of_lt hnonneg hlt, hvalue] at hbits
  rw [Shift.places, hbits, Int.toNat_natCast]

/-- An amount is taken modulo the width. -/
theorem toNat_mod_eq_places (amount : Int32) {width : Nat} (hwidth : width ∣ 2 ^ 32) :
    amount.toBitVec.toNat % width = Shift.places width amount := by
  have hbits : amount.toInt % (2 ^ 32 : Nat) = amount.toBitVec.toNat := toInt_emod_two_pow _
  have hmod : ((amount.toBitVec.toNat % width : Nat) : ℤ) = amount.toInt % width := by
    rw [Int.natCast_mod, ← hbits, Int.emod_emod_of_dvd _ (Int.natCast_dvd_natCast.2 hwidth)]
  rw [Shift.places, ← hmod, Int.toNat_natCast]

end

theorem shiftsExactly_int : ShiftsExactly 32 .int Int32.toInt := by
  have hplaces (amount : Int32) : (amount.toBitVec.smod 32).toNat = Shift.places 32 amount :=
    toNat_smod_eq_places 32 rfl rfl (by decide)
  refine shiftsExactly_of_bits (fun _ _ => Int32.toBitVec_inj.1) (fun a amount => ?_)
    (fun a amount => ?_) fun a amount => ?_
  · exact (Int32.toBitVec_shiftLeft a amount).trans (by rw [BitVec.shiftLeft_eq', hplaces])
  · exact (Int32.toBitVec_shiftRight a amount).trans (by rw [BitVec.sshiftRight_eq', hplaces])
  · have hunsigned : (amount.toBitVec % 32).toNat = Shift.places 32 amount :=
      BitVec.toNat_umod.trans (toNat_mod_eq_places amount (by decide))
    change a.toBitVec >>> (amount.toBitVec % 32) = _
    rw [BitVec.ushiftRight_eq', hunsigned]

theorem shiftsExactly_long : ShiftsExactly 64 .long Int64.toInt := by
  have hplaces (amount : Int32) :
      (amount.toInt64.toBitVec.smod 64).toNat = Shift.places 64 amount :=
    toNat_smod_eq_places 64 (Int32.toInt_toInt64 amount) rfl (by decide)
  refine shiftsExactly_of_bits (fun _ _ => Int64.toBitVec_inj.1) (fun a amount => ?_)
    (fun a amount => ?_) fun a amount => ?_
  · exact (Int64.toBitVec_shiftLeft a _).trans (by rw [BitVec.shiftLeft_eq', hplaces])
  · exact (Int64.toBitVec_shiftRight a _).trans (by rw [BitVec.sshiftRight_eq', hplaces])
  · have hwide : (amount.toBitVec.setWidth 64).toNat = amount.toBitVec.toNat :=
      BitVec.toNat_setWidth_of_le (by decide)
    have hunsigned : (amount.toBitVec.setWidth 64 % 64).toNat = Shift.places 64 amount := by
      rw [BitVec.toNat_umod, hwide]
      exact toNat_mod_eq_places amount (by decide)
    change a.toBitVec >>> (amount.toBitVec.setWidth 64 % 64) = _
    rw [BitVec.ushiftRight_eq', hunsigned]

/-! ### Narrowing -/

/-- Where an operation goes with the way down to a smaller type, it makes no difference whether one
goes down and up again before it as well as after it. -/
theorem up_down_congr {α β : Type} {down : α → β} {up : β → α} (hup : ∀ y, down (up y) = y)
    {f : α → α → α} {g : β → β → β} (hdown : ∀ a b, down (f a b) = g (down a) (down b)) (a b : α) :
    up (down (f a b)) = up (down (f (up (down a)) (up (down b)))) := by
  rw [hdown, hdown, hup, hup]

/-- A narrowing of ints is known by the smaller type that it leads through. -/
theorem narrowsInts_of_hom {β : Type} [Add β] [Sub β] [Mul β] [AndOp β] [OrOp β] [XorOp β]
    (down : Int32 → β) (up : β → Int32) {reduce : ℤ → ℤ} (hup : ∀ y, down (up y) = y)
    (hvalue : ∀ a, (up (down a)).toInt = reduce a.toInt)
    (hadd : ∀ a b, down (a + b) = down a + down b) (hsub : ∀ a b, down (a - b) = down a - down b)
    (hmul : ∀ a b, down (a * b) = down a * down b)
    (hand : ∀ a b, down (a &&& b) = down a &&& down b)
    (hor : ∀ a b, down (a ||| b) = down a ||| down b)
    (hxor : ∀ a b, down (a ^^^ b) = down a ^^^ down b) :
    NarrowsInts (fun a => up (down a)) reduce where
  value := hvalue
  arithmetic o f hf a b := by
    cases o with
    | add =>
      cases hf
      exact ⟨a + b, _, rfl, Int32.toInt_add a b, rfl, up_down_congr hup hadd a b⟩
    | sub =>
      cases hf
      exact ⟨a - b, _, rfl, Int32.toInt_sub a b, rfl, up_down_congr hup hsub a b⟩
    | mul =>
      cases hf
      exact ⟨a * b, _, rfl, Int32.toInt_mul a b, rfl, up_down_congr hup hmul a b⟩
    | div | rem => cases hf
  bitwise o a b := by
    cases o with
    | and => exact up_down_congr hup hand a b
    | or => exact up_down_congr hup hor a b
    | xor => exact up_down_congr hup hxor a b

/-- The low eight bits of an int are kept, with a sign. -/
theorem narrowsInts_byte : NarrowsInts Conversion.i2b.apply (·.bmod (2 ^ 8)) :=
  narrowsInts_of_hom Int32.toInt8 Int8.toInt32 Int8.toInt8_toInt32
    (fun a => (Int8.toInt_toInt32 _).trans (Int32.toInt_toInt8 a))
    Int32.toInt8_add Int32.toInt8_sub Int32.toInt8_mul Int32.toInt8_and Int32.toInt8_or
    Int32.toInt8_xor

/-- The low sixteen bits of an int are kept, with a sign. -/
theorem narrowsInts_short : NarrowsInts Conversion.i2s.apply (·.bmod (2 ^ 16)) :=
  narrowsInts_of_hom Int32.toInt16 Int16.toInt32 Int16.toInt16_toInt32
    (fun a => (Int16.toInt_toInt32 _).trans (Int32.toInt_toInt16 a))
    Int32.toInt16_add Int32.toInt16_sub Int32.toInt16_mul Int32.toInt16_and Int32.toInt16_or
    Int32.toInt16_xor

/-- A char has the low bits of an int without a sign. -/
theorem toInt_char (a : Int32) :
    a.toUInt32.toUInt16.toUInt32.toInt32.toInt = a.toInt % (2 ^ 16 : Nat) := by
  have hbits : a.toUInt32.toUInt16.toUInt32.toInt32.toInt =
    ((a.toBitVec.setWidth 16).setWidth 32).toInt := rfl
  have hmod : (a.toBitVec.setWidth 16).toNat = a.toBitVec.toNat % 2 ^ 16 :=
    BitVec.toNat_setWidth ..
  have hdvd : a.toInt % (2 ^ 32 : Nat) = a.toBitVec.toNat := toInt_emod_two_pow a.toBitVec
  rw [hbits, BitVec.toInt_eq_toNat_of_lt (by rw [BitVec.toNat_setWidth]; omega),
    BitVec.toNat_setWidth]
  omega

/-- The low sixteen bits of an int are kept, without a sign. -/
theorem narrowsInts_char : NarrowsInts Conversion.i2c.apply (· % (2 ^ 16 : Nat)) :=
  narrowsInts_of_hom (fun a => a.toUInt32.toUInt16) (fun c => c.toUInt32.toInt32)
    (fun c => by rw [UInt32.toUInt32_toInt32, UInt16.toUInt16_toUInt32]) toInt_char
    (fun a b => by rw [Int32.toUInt32_add, UInt32.toUInt16_add])
    (fun a b => by rw [Int32.toUInt32_sub, UInt32.toUInt16_sub])
    (fun a b => by rw [Int32.toUInt32_mul, UInt32.toUInt16_mul])
    (fun a b => by rw [Int32.toUInt32_and, UInt32.toUInt16_and])
    (fun a b => by rw [Int32.toUInt32_or, UInt32.toUInt16_or])
    (fun a b => by rw [Int32.toUInt32_xor, UInt32.toUInt16_xor])

/-- The low half of a long is kept, with a sign. -/
theorem narrowsLongs_int : NarrowsLongs Conversion.l2i.apply where
  value := Int64.toInt_toInt32
  arithmetic o f hf a b := by
    cases o with
    | add =>
      cases hf
      exact ⟨a + b, rfl, Int64.toInt_add a b, congrArg Except.ok (Int64.toInt32_add a b).symm⟩
    | sub =>
      cases hf
      exact ⟨a - b, rfl, Int64.toInt_sub a b, congrArg Except.ok (Int64.toInt32_sub a b).symm⟩
    | mul =>
      cases hf
      exact ⟨a * b, rfl, Int64.toInt_mul a b, congrArg Except.ok (Int64.toInt32_mul a b).symm⟩
    | div | rem => cases hf
  bitwise o a b := by
    cases o with
    | and => exact Int64.toInt32_and a b
    | or => exact Int64.toInt32_or a b
    | xor => exact Int64.toInt32_xor a b
  negate := Int64.toInt32_neg
  shiftLeft a amount hlt := by
    -- An amount that is small enough for longs as well as for ints is the same for both.
    have hplaces : Shift.places 64 amount = Shift.places 32 amount := by
      unfold Shift.places at hlt ⊢
      omega
    have hnarrow := Int64.toInt_toInt32 a
    refine Int32.toInt_inj.1 ?_
    calc (Shift.left.apply .long a amount : Int64).toInt32.toInt
        = ((a.toInt * (2 ^ Shift.places 64 amount : Nat)).bmod (2 ^ 64)).bmod (2 ^ 32) :=
          (Int64.toInt_toInt32 _).trans
            (congrArg (Int.bmod · (2 ^ 32)) (shiftsExactly_long.left a amount))
      _ = (a.toInt.bmod (2 ^ 32) * (2 ^ Shift.places 64 amount : Nat)).bmod (2 ^ 32) := by
          rw [Int.bmod_bmod_of_dvd (by decide), Int.bmod_mul_bmod]
      _ = (a.toInt32.toInt * (2 ^ Shift.places 32 amount : Nat)).bmod (2 ^ 32) := by
          rw [hplaces, hnarrow]
      _ = (Shift.left.apply .int a.toInt32 amount : Int32).toInt :=
          (shiftsExactly_int.left a.toInt32 amount).symm

/-! ### Instructions -/

/-- Instructions leave what the operations on integers give, of which only division fails. The
second of two numbers is on top, and the amount of a shift is on top of what is shifted. -/
structure InstructionsCompute : Prop where
  arithmetic : ∀ (o : Arithmetic) (n : Numeric) (operand : Operand Value) (a b c : n.Carrier),
    o.apply n a b = .ok c → Instruction.Computes ⟨.arithmetic o n, operand⟩
      [.of n.kind b, .of n.kind a] (.of n.kind c)
  bitwise : ∀ (o : Bitwise) (n : Integral) (operand : Operand Value) (a b : n.Carrier),
    Instruction.Computes ⟨.bitwise o n, operand⟩ [.of n.kind b, .of n.kind a]
      (.of n.kind (o.apply n a b))
  negate : ∀ (n : Numeric) (operand : Operand Value) (a : n.Carrier),
    Instruction.Computes ⟨.negate n, operand⟩ [.of n.kind a] (.of n.kind (n.negate a))
  shift : ∀ (d : Shift) (n : Integral) (operand : Operand Value) (a : n.Carrier) (amount : Int32),
    Instruction.Computes ⟨.shift d n, operand⟩ [.int amount, .of n.kind a]
      (.of n.kind (d.apply n a amount))
  convert : ∀ (c : Conversion) (operand : Operand Value) (a : c.source.Carrier),
    Instruction.Computes ⟨.convert c, operand⟩ [.of c.source.kind a]
      (.of c.target.kind (c.apply a))

/-- The instruction for a shift pushes the shifted number. -/
theorem computes_shift (d : Shift) (n : Integral) (operand : Operand Value) (a : n.Carrier)
    (amount : Int32) :
    Instruction.Computes ⟨.shift d n, operand⟩ [.int amount, .of n.kind a]
      (.of n.kind (d.apply n a amount)) := by
  let args : Arguments (Plan.shifting d n).demand := (amount, a, ())
  exact computes_of_effect (p := .shifting d n) rfl args fun _ => rfl

/-- The instructions for all these operations push what they give. -/
theorem instructionsCompute : InstructionsCompute where
  arithmetic _ _ operand _ _ _ h := computes_arithmetic h operand
  bitwise _ _ _ _ _ := computes_of_binary rfl rfl
  negate _ _ _ := Action.computes_of_unary rfl rfl
  shift := computes_shift
  convert _ _ _ := Action.computes_of_unary rfl rfl

/-- Narrowing goes with the operations on integers, and shifting is multiplying and dividing by
powers of two, in what the instructions leave. -/
theorem narrowing_and_shifting_exact :
    NarrowsLongs Conversion.l2i.apply ∧
      NarrowsInts Conversion.i2b.apply (·.bmod (2 ^ 8)) ∧
      NarrowsInts Conversion.i2s.apply (·.bmod (2 ^ 16)) ∧
      NarrowsInts Conversion.i2c.apply (· % (2 ^ 16 : Nat)) ∧
      ShiftsExactly 32 .int Int32.toInt ∧ ShiftsExactly 64 .long Int64.toInt ∧
      InstructionsCompute :=
  ⟨narrowsLongs_int, narrowsInts_byte, narrowsInts_short, narrowsInts_char, shiftsExactly_int,
    shiftsExactly_long, instructionsCompute⟩

end StackMachine
