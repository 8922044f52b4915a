import Mathlib.Tactic.Ring
import StackMachine.Proofs.Integers
import StackMachine.Proofs.Nearest

/-!
# The grammar of decimal numbers

A decimal number is a sign, digits with a point among them, and an exponent; all but the digits
may be missing. What such a text stands for is said by its parts, and the texts that are read are
exactly those of the grammar, each as the rational number that it stands for.
-/

namespace StackMachine

namespace Numeral

/-- Digits that follow others are worth less, by a power of the base. -/
theorem Denotes.append {base n m : Nat} {ds fs : List Char} (hds : Denotes base ds n)
    (hfs : Denotes base fs m) : Denotes base (ds ++ fs) (n * base ^ fs.length + m) := by
  induction hfs with
  | digit hc =>
    rw [List.length_singleton, pow_one, mul_comm]
    exact hds.more hc
  | @more fs m c d _ hc ih =>
    have hvalue : n * base ^ (fs ++ [c]).length + (base * m + d) =
        base * (n * base ^ fs.length + m) + d := by
      rw [List.length_append, List.length_singleton, pow_succ]
      ring
    rw [← List.append_assoc, hvalue]
    exact ih.more hc

/-- Digits denote their value. -/
theorem denotes_value {ds : List Char} (hne : ds ≠ []) (h : ∀ c ∈ ds, c.isDigit) :
    Denotes 10 ds (value ds) :=
  readDigits?_eq_some_iff.1 (readDigits?_of_digits hne h)

end Numeral

namespace Decimal

open Numeral

variable {cs ms es whole fraction : List Char} {negative : Bool} {q : ℚ} {e : ℤ} {d : Decimal}

/-- Digits, perhaps with a point in front of them, among them or behind them, and the number that
they denote. -/
inductive Mantissa : List Char → ℚ → Prop where
  | whole {ds : List Char} {n : Nat} (hds : Denotes 10 ds n) : Mantissa ds n
  | point {ds : List Char} {n : Nat} (hds : Denotes 10 ds n) : Mantissa (ds ++ ['.']) n
  | both {ds fs : List Char} {n m : Nat} (hds : Denotes 10 ds n) (hfs : Denotes 10 fs m) :
      Mantissa (ds ++ '.' :: fs) (n + m / 10 ^ fs.length)
  | fraction {fs : List Char} {m : Nat} (hfs : Denotes 10 fs m) :
      Mantissa ('.' :: fs) (m / 10 ^ fs.length)

/-- An exponent, which may be missing. -/
inductive Power : List Char → ℤ → Prop where
  | none : Power [] 0
  | exponent {letter : Char} {cs : List Char} {e : ℤ} (hletter : letter = 'e' ∨ letter = 'E')
      (h : DenotesInt cs e) : Power (letter :: cs) e

/-- The text of a decimal number, whether it has a minus sign, and the number that it stands for. -/
inductive Body : List Char → Bool → ℚ → Prop where
  | intro {sign ms es : List Char} {negative : Bool} {q : ℚ} {e : ℤ} (hsign : Sign sign negative)
      (hms : Mantissa ms q) (hes : Power es e) :
      Body (sign ++ (ms ++ es)) negative (withSign negative (q * 10 ^ e))

/-! ### Digits and exponents -/

/-- Digits around a point count as if there were none, but for a power of ten. -/
theorem mantissa_iff : Mantissa ms q ↔ ∃ whole fraction, (∀ c ∈ whole ++ fraction, c.isDigit) ∧
    whole ++ fraction ≠ [] ∧ q = value (whole ++ fraction) / 10 ^ fraction.length ∧
      (ms = whole ++ '.' :: fraction ∨ fraction = [] ∧ ms = whole) := by
  constructor
  · intro h
    cases h with
    | whole hds =>
      refine ⟨ms, [], ?_, ?_, ?_, .inr ⟨rfl, rfl⟩⟩ <;> rw [List.append_nil]
      · exact hds.isDigit
      · exact hds.ne_nil
      · rw [value_of_denotes hds, List.length_nil, pow_zero, div_one]
    | @point ds n hds =>
      refine ⟨ds, [], ?_, ?_, ?_, .inl rfl⟩ <;> rw [List.append_nil]
      · exact hds.isDigit
      · exact hds.ne_nil
      · rw [value_of_denotes hds, List.length_nil, pow_zero, div_one]
    | @both ds fs n m hds hfs =>
      have hdigits := hds.append hfs
      refine ⟨ds, fs, hdigits.isDigit, hdigits.ne_nil, ?_, .inl rfl⟩
      rw [value_of_denotes hdigits]
      push_cast
      field_simp
    | @fraction fs m hfs =>
      refine ⟨[], fs, hfs.isDigit, hfs.ne_nil, ?_, .inl rfl⟩
      rw [List.nil_append, value_of_denotes hfs]
  · rintro ⟨whole, fraction, hdigits, hne, rfl, hms⟩
    rw [List.forall_mem_append] at hdigits
    obtain ⟨hwhole, hfraction⟩ := hdigits
    by_cases hnil : fraction = []
    · subst hnil
      rw [List.append_nil] at hne ⊢
      rw [List.length_nil, pow_zero, div_one]
      rcases hms with rfl | ⟨-, rfl⟩
      · exact .point (denotes_value hne hwhole)
      · exact .whole (denotes_value hne hwhole)
    -- With digits behind it there has to be a point.
    obtain rfl := hms.resolve_right fun h => hnil h.1
    have hfs := denotes_value hnil hfraction
    by_cases hempty : whole = []
    · subst hempty
      exact .fraction hfs
    · have hds := denotes_value hempty hwhole
      have hboth := Mantissa.both hds hfs
      rw [value_of_denotes (hds.append hfs)]
      convert hboth using 1
      push_cast
      field_simp

/-- An exponent is read exactly if it is a power. -/
theorem readExponent?_eq_some_iff : readExponent? es = some e ↔ Power es e := by
  constructor
  · intro h
    unfold readExponent? at h
    split at h
    · cases h
      exact .none
    · split at h
      · rename_i hletter
        exact .exponent hletter (readInt?_eq_some_iff.1 h)
      · cases h
  · intro h
    cases h with
    | none => rfl
    | exponent hletter h =>
      rw [readExponent?, if_pos hletter]
      exact readInt?_eq_some_iff.2 h

/-- An exponent ends the digits before it. -/
theorem Power.head? (h : Power es e) : ∀ c ∈ es.head?, ¬ c.isDigit ∧ c ≠ '.' := by
  cases h with
  | none => exact fun c hc => absurd hc (by simp)
  | exponent hletter _ =>
    intro c hc
    obtain rfl := Option.some.inj hc
    rcases hletter with rfl | rfl <;> decide

/-- A mantissa begins with a digit or a point. -/
theorem Mantissa.exists_cons (h : Mantissa ms q) :
    ∃ c ms', ms = c :: ms' ∧ (c.isDigit ∨ c = '.') := by
  obtain ⟨whole, fraction, hdigits, hne, -, hms⟩ := mantissa_iff.1 h
  cases whole with
  | nil =>
    rcases hms with rfl | ⟨rfl, rfl⟩
    · exact ⟨'.', fraction, rfl, .inr rfl⟩
    · exact absurd rfl hne
  | cons c whole =>
    have hc : c.isDigit := hdigits c (List.mem_cons_self ..)
    rcases hms with rfl | ⟨-, rfl⟩
    · exact ⟨c, _, rfl, .inl hc⟩
    · exact ⟨c, _, rfl, .inl hc⟩

/-- The sign of a decimal number is split off, whatever comes behind its mantissa. -/
theorem splitSign_of_mantissa {sign : List Char} (hsign : Sign sign negative)
    (hms : Mantissa ms q) (es : List Char) :
    splitSign (sign ++ (ms ++ es)) = (negative, ms ++ es) := by
  obtain ⟨c, ms', rfl, hc⟩ := hms.exists_cons
  have hne : c ≠ '-' ∧ c ≠ '+' := by
    rcases hc with hc | rfl
    · exact ne_sign_of_isDigit hc
    · decide
  exact splitSign_append_of_ne hsign hne (ms' ++ es)

/-! ### Decimal numbers -/

/-- A decimal number is its digits, shifted by its places. -/
theorem toRat_mk (negative : Bool) (n k : Nat) (e : ℤ) :
    toRat ⟨negative, n, e - k⟩ = withSign negative (n / 10 ^ k * 10 ^ e) := by
  have hscale : (n : ℚ) * 10 ^ (e - k) = n / 10 ^ k * 10 ^ e := by
    rw [zpow_sub₀ (by norm_num), zpow_natCast]
    ring
  rw [toRat, hscale]

/-- Parts of a text that are read one by one make up a decimal number. -/
theorem body_of_parts {sign : List Char} (hsign : Sign sign negative)
    (hwhole : ∀ c ∈ whole, c.isDigit) (hfraction : ∀ c ∈ fraction, c.isDigit)
    (hms : ms = whole ++ '.' :: fraction ∨ fraction = [] ∧ ms = whole)
    (h : (if whole = [] ∧ fraction = [] then none else (readExponent? es).map fun e =>
      (⟨negative, value (whole ++ fraction), e - fraction.length⟩ : Decimal)) = some d) :
    Body (sign ++ (ms ++ es)) d.negative d.toRat := by
  split at h
  · cases h
  · rename_i hne
    obtain ⟨e, he, rfl⟩ := Option.map_eq_some_iff.1 h
    have hmantissa := mantissa_iff.2 ⟨whole, fraction, List.forall_mem_append.2 ⟨hwhole, hfraction⟩,
      fun h => hne (List.append_eq_nil_iff.1 h), rfl, hms⟩
    rw [toRat_mk]
    exact .intro hsign hmantissa (readExponent?_eq_some_iff.1 he)

/-- What is read is the text of a decimal number. -/
theorem body_of_read? (h : read? cs = some d) : Body cs d.negative d.toRat := by
  obtain ⟨sign, hsign, hcs⟩ := exists_sign cs
  have hsplit := List.takeWhile_append_dropWhile (p := Char.isDigit) (l := (splitSign cs).2)
  have hdigits {l : List Char} : ∀ c ∈ l.takeWhile Char.isDigit, c.isDigit := fun c hc =>
    List.mem_takeWhile_imp hc
  unfold read? at h
  dsimp only at h
  rw [← hcs, ← hsplit]
  split at h
  · rename_i after hrest
    have htext := body_of_parts hsign hdigits hdigits (.inl rfl) h
    rwa [List.append_assoc, List.cons_append, List.takeWhile_append_dropWhile, ← hrest] at htext
  · exact body_of_parts hsign hdigits (List.forall_mem_nil _) (.inr ⟨rfl, rfl⟩) h

/-- The text of a decimal number is read. -/
theorem exists_read?_of_body (h : Body cs negative q) :
    ∃ d, read? cs = some d ∧ d.negative = negative ∧ d.toRat = q := by
  obtain @⟨sign, ms, es, negative, q, e, hsign, hms, hes⟩ := h
  have hsplit := splitSign_of_mantissa hsign hms es
  obtain ⟨whole, fraction, hdigits, hne, rfl, htext⟩ := mantissa_iff.1 hms
  obtain ⟨hwhole, hfraction⟩ := List.forall_mem_append.1 hdigits
  have hread := readExponent?_eq_some_iff.2 hes
  refine ⟨⟨negative, value (whole ++ fraction), e - fraction.length⟩, ?_, rfl, toRat_mk ..⟩
  rcases htext with rfl | ⟨rfl, rfl⟩
  · have happend : whole ++ '.' :: fraction ++ es = whole ++ '.' :: (fraction ++ es) :=
      List.append_assoc ..
    rw [happend] at hsplit ⊢
    exact read?_point hsplit hwhole hfraction hne (fun c hc => (hes.head? c hc).1) hread
  · rw [List.append_nil] at hne
    rw [read?_whole hsplit hwhole hne hes.head? hread, List.append_nil, List.length_nil,
      Int.natCast_zero, Int.sub_zero]

end Decimal

end StackMachine
