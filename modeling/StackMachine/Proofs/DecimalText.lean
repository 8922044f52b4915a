import StackMachine.Decimal.Shortest
import StackMachine.Proofs.Rounding
import StackMachine.Proofs.Words

/-!
# Reading back decimal text

The shortest decimal of a number is chosen among those that read back as the number,
and writing it with a point or with an exponent keeps its value. So the text of every
number that is not a NaN is read as that number, sign and all.
-/

namespace StackMachine

-- Powers of natural numbers mean the same whichever algebra is in scope.
attribute [local instance (10000)] instPowNat

namespace Numeral

/-- Zeros behind digits are factors of ten. -/
theorem value_append_zeros (ds : List Char) (k : Nat) :
    value (ds ++ List.replicate k '0') = value ds * 10 ^ k := by
  rw [value, Nat.ofDigitChars_append, Nat.ofDigitChars_replicate_zero, Nat.mul_comm]
  rfl

/-- Zeros in front of digits change no value. -/
theorem value_zeros_append (k : Nat) (ds : List Char) :
    value (List.replicate k '0' ++ ds) = value ds := by
  rw [value, Nat.ofDigitChars_append, Nat.ofDigitChars_replicate_zero, Nat.mul_zero]
  rfl

theorem isDigit_of_mem_zeros {k : Nat} {c : Char} (h : c ∈ List.replicate k '0') : c.isDigit := by
  rw [List.eq_of_mem_replicate h]
  rfl

/-- A character that words of numbers are written with, their suffixes included. -/
def isNumberChar (c : Char) : Bool := c.isDigit || "+-.eLfdNaNInfinity".toList.contains c

theorem isNumberChar_of_isDigit {c : Char} (h : c.isDigit) : isNumberChar c := by
  rw [isNumberChar, h, Bool.true_or]

/-- The sign of a numeral that shows minus signs only. -/
def minus (negative : Bool) : List Char := if negative then ['-'] else []

/-- An integer is written as a minus, if it is negative, and its size. -/
theorem ofInt_eq (n : Int) : ofInt n = minus (n < 0) ++ ofNat n.natAbs := by
  unfold ofInt minus
  by_cases hn : n < 0
  · rw [if_pos hn, if_pos (decide_eq_true hn)]
    rfl
  · rw [if_neg hn, if_neg (by simpa using hn)]
    rfl

/-- A minus can stand in a printed number. -/
theorem isNumberChar_of_mem_minus {negative : Bool} {c : Char} (h : c ∈ minus negative) :
    isNumberChar c := by
  cases negative with
  | true =>
    rw [List.mem_singleton.1 h]
    decide
  | false => cases h

theorem isNumberChar_of_mem_ofInt {n : Int} {c : Char} (h : c ∈ ofInt n) : isNumberChar c := by
  rw [ofInt_eq] at h
  rcases List.mem_append.1 h with h | h
  · exact isNumberChar_of_mem_minus h
  · exact isNumberChar_of_isDigit (isDigit_of_mem_ofNat h)

/-- A minus is read as one, and its absence as a plus. -/
theorem sign_minus (negative : Bool) : Sign (minus negative) negative := by
  cases negative with
  | true => exact .minus
  | false => exact .none

end Numeral

namespace Decimal

open Numeral

/-- A tail that ends the digits before it. -/
private def Ends (tail : List Char) : Prop := ∀ c ∈ tail.head?, ¬ c.isDigit

/-- Digits are taken up to where they end. -/
private theorem takeWhile_digits {ds tail : List Char} (h : ∀ c ∈ ds, c.isDigit)
    (ht : Ends tail) : (ds ++ tail).takeWhile Char.isDigit = ds := by
  rw [List.takeWhile_append_of_pos h]
  cases tail with
  | nil => rw [List.takeWhile_nil, List.append_nil]
  | cons c cs => rw [List.takeWhile_cons_of_neg (ht c rfl), List.append_nil]

private theorem dropWhile_digits {ds tail : List Char} (h : ∀ c ∈ ds, c.isDigit)
    (ht : Ends tail) : (ds ++ tail).dropWhile Char.isDigit = tail := by
  rw [List.dropWhile_append_of_pos h]
  cases tail with
  | nil => rw [List.dropWhile_nil]
  | cons c cs => rw [List.dropWhile_cons_of_neg (ht c rfl)]

/-- Digits around a point and an exponent are read. -/
theorem read?_point {cs whole fraction tail : List Char} {negative : Bool} {e : Int}
    (hsign : splitSign cs = (negative, whole ++ '.' :: (fraction ++ tail)))
    (hwhole : ∀ c ∈ whole, c.isDigit) (hfraction : ∀ c ∈ fraction, c.isDigit)
    (hne : whole ++ fraction ≠ []) (htail : ∀ c ∈ tail.head?, ¬ c.isDigit)
    (hexp : readExponent? tail = some e) :
    read? cs = some ⟨negative, value (whole ++ fraction), e - fraction.length⟩ := by
  have hpoint : Ends ('.' :: (fraction ++ tail)) := by
    intro c hc
    cases hc
    decide
  unfold read?
  simp only [hsign, takeWhile_digits hwhole hpoint, dropWhile_digits hwhole hpoint,
    takeWhile_digits hfraction htail, dropWhile_digits hfraction htail, hexp]
  rw [if_neg fun h => hne (List.append_eq_nil_iff.2 h)]
  rfl

/-- Digits without a point and an exponent are read. -/
theorem read?_whole {cs whole tail : List Char} {negative : Bool} {e : Int}
    (hsign : splitSign cs = (negative, whole ++ tail)) (hwhole : ∀ c ∈ whole, c.isDigit)
    (hne : whole ≠ []) (htail : ∀ c ∈ tail.head?, ¬ c.isDigit ∧ c ≠ '.')
    (hexp : readExponent? tail = some e) :
    read? cs = some ⟨negative, value whole, e⟩ := by
  have hends : Ends tail := fun c hc => (htail c hc).1
  unfold read?
  simp only [hsign, takeWhile_digits hwhole hends, dropWhile_digits hwhole hends]
  split
  · exact absurd rfl (htail '.' rfl).2
  · rw [if_neg fun h => hne h.1, hexp, List.append_nil]
    simp

/-- A printed exponent is read back. -/
theorem readExponent?_ofInt (e : Int) : readExponent? ('e' :: ofInt e) = some e := by
  unfold readExponent?
  dsimp only
  rw [if_pos (.inl rfl), splitSign_ofInt]
  simp only [readDigits?_ofNat]
  exact congrArg some (signed_natAbs e)

/-- A decimal written with a point: digits around it that make the coefficient, perhaps
with zeros at its end. -/
theorem exists_positional (d : Decimal) :
    ∃ c whole fraction, ∃ k : Nat, d.positional = c :: whole ++ '.' :: fraction ∧ c.isDigit ∧
      (∀ x ∈ whole, x.isDigit) ∧ (∀ x ∈ fraction, x.isDigit) ∧
      value (c :: whole ++ fraction) = d.coefficient * 10 ^ k ∧
      -(fraction.length : Int) = d.exponent - k := by
  obtain ⟨c, cs, hcs, hc, hdigits⟩ := exists_ofNat_eq_cons d.coefficient
  have hvalue : value (c :: cs) = d.coefficient := by rw [← hcs, value_ofNat]
  unfold positional
  rw [hcs]
  dsimp only
  split
  · refine ⟨c, cs ++ List.replicate d.exponent.toNat '0', ['0'], d.exponent.toNat + 1, ?_, hc,
      ?_, ?_, ?_, ?_⟩
    · simp
    · intro x hx
      rcases List.mem_append.1 hx with hx | hx
      · exact hdigits x hx
      · exact isDigit_of_mem_zeros hx
    · intro x hx
      rw [List.mem_singleton.1 hx]
      rfl
    · rw [← hvalue, ← value_append_zeros, List.replicate_succ', List.cons_append, List.append_assoc]
      rfl
    · rw [List.length_singleton]
      omega
  · rename_i hplaces
    split
    · rename_i hlt
      rw [List.length_cons] at hlt
      obtain ⟨n, hn⟩ : ∃ n, (c :: cs).length - (-d.exponent).toNat = n + 1 :=
        ⟨cs.length - (-d.exponent).toNat, by rw [List.length_cons]; omega⟩
      rw [hn]
      refine ⟨c, cs.take n, cs.drop n, 0, by simp, hc, ?_, ?_, ?_, ?_⟩
      · exact fun x hx => hdigits x (List.mem_of_mem_take hx)
      · exact fun x hx => hdigits x (List.mem_of_mem_drop hx)
      · rw [List.cons_append, List.take_append_drop, hvalue, Nat.pow_zero, Nat.mul_one]
      · rw [List.length_cons] at hn
        rw [List.length_drop]
        omega
    · rename_i hge
      refine ⟨'0', [], List.replicate ((-d.exponent).toNat - (c :: cs).length) '0' ++ c :: cs, 0,
        rfl, rfl, by simp, ?_, ?_, ?_⟩
      · intro x hx
        rcases List.mem_append.1 hx with hx | hx
        · exact isDigit_of_mem_zeros hx
        · exact isDigit_of_mem_ofNat (hcs ▸ hx)
      · have hzeros := value_zeros_append ((-d.exponent).toNat - (c :: cs).length + 1) (c :: cs)
        rw [Nat.pow_zero, Nat.mul_one]
        exact hzeros.trans hvalue
      · rw [List.length_append, List.length_replicate]
        omega

/-- A decimal written with an exponent: digits, perhaps with a point after the first one,
that make the coefficient, and an exponent. -/
theorem exists_scientific (d : Decimal) :
    ∃ c fraction, d.scientific = c :: ((if fraction = [] then [] else '.' :: fraction) ++
        'e' :: ofInt (d.exponent + fraction.length)) ∧ c.isDigit ∧
      (∀ x ∈ fraction, x.isDigit) ∧ value (c :: fraction) = d.coefficient := by
  obtain ⟨c, cs, hcs, hc, hdigits⟩ := exists_ofNat_eq_cons d.coefficient
  refine ⟨c, cs, ?_, hc, hdigits, ?_⟩
  · unfold scientific
    rw [hcs]
    rfl
  · rw [← hcs, value_ofNat]

/-- A decimal written with a point begins with a digit. -/
theorem exists_positional_eq_cons (d : Decimal) :
    ∃ c cs, d.positional = c :: cs ∧ c.isDigit ∧ ∀ x ∈ c :: cs, isNumberChar x := by
  obtain ⟨c, whole, fraction, k, htext, hc, hwhole, hfraction, -⟩ := exists_positional d
  refine ⟨c, whole ++ '.' :: fraction, htext, hc, ?_⟩
  intro x hx
  rcases List.mem_cons.1 hx with rfl | hx
  · exact isNumberChar_of_isDigit hc
  · rcases List.mem_append.1 hx with hx | hx
    · exact isNumberChar_of_isDigit (hwhole x hx)
    · rcases List.mem_cons.1 hx with rfl | hx
      · decide
      · exact isNumberChar_of_isDigit (hfraction x hx)

/-- A decimal written with an exponent begins with a digit. -/
theorem exists_scientific_eq_cons (d : Decimal) :
    ∃ c cs, d.scientific = c :: cs ∧ c.isDigit ∧ ∀ x ∈ c :: cs, isNumberChar x := by
  obtain ⟨c, fraction, htext, hc, hfraction, -⟩ := exists_scientific d
  refine ⟨c, _, htext, hc, ?_⟩
  intro x hx
  rcases List.mem_cons.1 hx with rfl | hx
  · exact isNumberChar_of_isDigit hc
  · rcases List.mem_append.1 hx with hx | hx
    · split at hx
      · cases hx
      · rcases List.mem_cons.1 hx with rfl | hx
        · decide
        · exact isNumberChar_of_isDigit (hfraction x hx)
    · rcases List.mem_cons.1 hx with rfl | hx
      · decide
      · exact isNumberChar_of_mem_ofInt hx

/-- A decimal written with a point is read as its value. -/
theorem read?_positional (negative : Bool) (d : Decimal) : ∃ k : Nat,
    read? (minus negative ++ d.positional) =
      some ⟨negative, d.coefficient * 10 ^ k, d.exponent - k⟩ := by
  obtain ⟨c, whole, fraction, k, htext, hc, hwhole, hfraction, hvalue, hexp⟩ := exists_positional d
  refine ⟨k, ?_⟩
  have hsign : splitSign (minus negative ++ d.positional) =
      (negative, c :: whole ++ '.' :: (fraction ++ [])) := by
    rw [htext, List.append_nil]
    exact splitSign_append (sign_minus negative) hc _
  have hdigits : ∀ x ∈ c :: whole, x.isDigit := by
    intro x hx
    rcases List.mem_cons.1 hx with rfl | hx
    · exact hc
    · exact hwhole x hx
  rw [read?_point hsign hdigits hfraction (List.cons_ne_nil _ _) (by simp) rfl, hvalue,
    Int.zero_sub, hexp]

/-- A decimal written with an exponent is read as it is. -/
theorem read?_scientific (negative : Bool) (d : Decimal) :
    read? (minus negative ++ d.scientific) = some ⟨negative, d.coefficient, d.exponent⟩ := by
  obtain ⟨c, fraction, htext, hc, hfraction, hvalue⟩ := exists_scientific d
  have hdigit : ∀ x ∈ [c], x.isDigit := by
    intro x hx
    rw [List.mem_singleton.1 hx]
    exact hc
  have hsign (cs : List Char) : splitSign (minus negative ++ c :: cs) = (negative, [c] ++ cs) :=
    splitSign_append (sign_minus negative) hc cs
  rw [htext]
  by_cases hne : fraction = []
  · subst hne
    have htail : ∀ x ∈ ('e' :: ofInt d.exponent).head?, ¬ x.isDigit ∧ x ≠ '.' := by
      intro x hx
      cases hx
      decide
    rw [if_pos rfl, List.nil_append, List.length_nil, Int.natCast_zero, Int.add_zero,
      read?_whole (hsign _) hdigit (List.cons_ne_nil _ _) htail (readExponent?_ofInt _), hvalue]
  · have htail : ∀ x ∈ ('e' :: ofInt (d.exponent + fraction.length)).head?, ¬ x.isDigit := by
      intro x hx
      cases hx
      decide
    rw [if_neg hne, List.cons_append,
      read?_point (hsign _) hdigit hfraction (List.cons_ne_nil _ _) htail (readExponent?_ofInt _),
      List.singleton_append, hvalue, Int.add_sub_cancel]

end Decimal

namespace Binary

open Decimal Numeral

variable {f : Format}

/-- A finite number that is not negative is that nearest to its units. -/
theorem nearest_absUnits {x : Binary f} (hfinite : x.isFinite) (hneg : x.negative = false) :
    nearest false x.absUnits 1 = x := by
  have hlt : x.magnitude.val < f.infinity := of_decide_eq_true hfinite
  obtain ⟨negative, m, hm⟩ := x
  obtain rfl : negative = false := hneg
  unfold nearest ofParts absUnits
  simp only [f.nearest_units hlt, Nat.mod_eq_of_lt hm]

/-- Leaving out zeros at the end keeps the number that is read. -/
theorem ofDecimal_trim (hf : 2 ≤ f.exponentBits) (d : Decimal) :
    (ofDecimal d.trim : Binary f) = ofDecimal d := by
  rw [trim]
  split
  · rename_i h
    rw [ofDecimal_trim hf]
    have hscale := ofDecimal_scale (f := f) hf d.negative (d.coefficient / 10) (d.exponent + 1) 1
    rw [Nat.pow_one, Nat.div_mul_cancel (Nat.dvd_of_mod_eq_zero h.2), Int.natCast_one,
      Int.add_sub_cancel] at hscale
    exact hscale.symm
  · rfl
termination_by d.coefficient
decreasing_by exact Nat.div_lt_self (by omega) (by decide)

/-- A decimal number keeps its sign without its final zeros. -/
theorem negative_trim (d : Decimal) : d.trim.negative = d.negative := by
  rw [trim]
  split
  · exact negative_trim _
  · rfl
termination_by d.coefficient
decreasing_by exact Nat.div_lt_self (by omega) (by decide)

/-- A decimal that is found on a grid reads back as the number. -/
theorem ofDecimal_of_onGrid? {x : Binary f} {e : Int} {d : Decimal} (h : x.onGrid? e = some d) :
    ofDecimal d = x ∧ d.negative = false := by
  unfold onGrid? at h
  dsimp only at h
  split at h
  · rename_i habove
    cases h
    rw [Bool.and_eq_true, decide_eq_true_eq] at habove
    exact ⟨habove.1, rfl⟩
  · split at h
    · rename_i hbelow
      cases h
      exact ⟨of_decide_eq_true hbelow, rfl⟩
    · cases h

/-- The exact decimal reads back as the number. -/
theorem ofDecimal_exactDecimal (hf : 2 ≤ f.exponentBits) {x : Binary f} (hfinite : x.isFinite)
    (hneg : x.negative = false) : ofDecimal x.exactDecimal = x := by
  rw [ofDecimal_eq hf]
  refine Eq.trans ?_ (nearest_absUnits hfinite hneg)
  unfold exactDecimal nearest
  have hexp : (- -(f.scale : Int)).toNat = f.scale := by omega
  have hpos : (-(f.scale : Int)).toNat = 0 := by omega
  have hten : x.absUnits * 5 ^ f.scale * 10 ^ 0 * f.one = x.absUnits * 10 ^ f.scale := by
    rw [Nat.pow_zero, Nat.mul_one, Nat.mul_assoc, Format.one, ← Nat.mul_pow]
  simp only [hexp, hpos, hten]
  have hmul := f.nearest_mul x.absUnits 1 (Nat.pow_pos (by decide : 0 < 10) (n := f.scale))
  rw [Nat.one_mul] at hmul
  rw [hmul]

/-- The shortest decimal reads back as the number. -/
theorem ofDecimal_shortest (hf : 2 ≤ f.exponentBits) {x : Binary f} (hfinite : x.isFinite)
    (hneg : x.negative = false) : ofDecimal x.shortest = x ∧ x.shortest.negative = false := by
  unfold shortest
  rw [ofDecimal_trim hf, negative_trim]
  cases hfind : (List.range 17).findSome? fun n : Nat => x.onGrid? (x.leadingPlace - 1 - n) with
  | none => exact ⟨ofDecimal_exactDecimal hf hfinite hneg, rfl⟩
  | some d =>
    obtain ⟨n, -, hn⟩ := List.exists_of_findSome?_eq_some hfind
    exact ofDecimal_of_onGrid? hn

/-- With the sign of a finite number, the shortest decimal of its absolute value reads back
as the number. -/
theorem ofDecimal_shortest_abs (hf : 2 ≤ f.exponentBits) {x : Binary f} (hfinite : x.isFinite) :
    ofDecimal ⟨x.negative, x.abs.shortest.coefficient, x.abs.shortest.exponent⟩ = x := by
  obtain ⟨hread, hneg⟩ := ofDecimal_shortest hf (x := x.abs) hfinite rfl
  have hshortest : (⟨false, x.abs.shortest.coefficient, x.abs.shortest.exponent⟩ : Decimal) =
      x.abs.shortest := by rw [← hneg]
  rw [ofDecimal_sign hf, hshortest, hread]
  rfl

/-- A number is written according to its class and its size, behind its sign. -/
theorem chars_eq (x : Binary f) : x.chars =
    if x.isNaN then "NaN".toList
    else if x.isInfinite then minus x.negative ++ "Infinity".toList
    else if x.isZero then minus x.negative ++ "0.0".toList
    else if x.abs.isPositional then minus x.negative ++ x.abs.shortest.positional
    else minus x.negative ++ x.abs.shortest.scientific := rfl

/-- The text of a finite number is that of a decimal which reads back as the number. -/
theorem read?_chars (hf : 2 ≤ f.exponentBits) {x : Binary f} (hfinite : x.isFinite) :
    ∃ d, Decimal.read? x.chars = some d ∧ ofDecimal d = x := by
  have hlt : x.magnitude.val < f.infinity := of_decide_eq_true hfinite
  have hnan : ¬ x.isNaN := by
    unfold isNaN
    rw [decide_eq_true_eq]
    omega
  have hinfinite : ¬ x.isInfinite := by
    unfold isInfinite
    rw [decide_eq_true_eq]
    omega
  rw [chars_eq, if_neg hnan, if_neg hinfinite]
  split
  · rename_i hzero
    refine ⟨⟨x.negative, 0, -1⟩, ?_, ?_⟩
    · cases x.negative <;> rfl
    · have hmagnitude : x.magnitude.val = 0 := of_decide_eq_true hzero
      obtain ⟨negative, m, hm⟩ := x
      obtain rfl : m = 0 := hmagnitude
      unfold ofDecimal zero ofParts
      rw [if_pos rfl]
      simp only [Nat.zero_mod]
  · split
    · obtain ⟨k, hk⟩ := read?_positional x.negative x.abs.shortest
      exact ⟨_, hk, (ofDecimal_scale hf ..).trans (ofDecimal_shortest_abs hf hfinite)⟩
    · exact ⟨_, read?_scientific x.negative x.abs.shortest, ofDecimal_shortest_abs hf hfinite⟩

/-- The text of a number is a sign and more, which begins with a digit or with the first
letter of a special number. -/
theorem exists_chars (x : Binary f) : ∃ negative c cs, x.chars = minus negative ++ c :: cs ∧
    (c.isDigit ∨ c = 'N' ∨ c = 'I') ∧ ∀ d ∈ c :: cs, isNumberChar d := by
  rw [chars_eq]
  split
  · exact ⟨false, 'N', "aN".toList, rfl, .inr (.inl rfl), List.all_eq_true.1 rfl⟩
  · split
    · exact ⟨x.negative, 'I', "nfinity".toList, rfl, .inr (.inr rfl), List.all_eq_true.1 rfl⟩
    · split
      · exact ⟨x.negative, '0', ".0".toList, rfl, .inl rfl, List.all_eq_true.1 rfl⟩
      · split
        · obtain ⟨c, cs, htext, hc, hcs⟩ := exists_positional_eq_cons x.abs.shortest
          exact ⟨x.negative, c, cs, by rw [htext], .inl hc, hcs⟩
        · obtain ⟨c, cs, htext, hc, hcs⟩ := exists_scientific_eq_cons x.abs.shortest
          exact ⟨x.negative, c, cs, by rw [htext], .inl hc, hcs⟩

end Binary

end StackMachine
