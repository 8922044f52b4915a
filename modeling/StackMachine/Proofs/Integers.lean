import Mathlib.Data.Int.ModEq
import Mathlib.Data.List.Induction
import StackMachine.Proofs.NumberWords

/-!
# Reading integers

What a row of digits denotes is said by the place value of the digits, apart from how it is read.
Words of digits are read as exactly the number that they denote, and those in hexadecimal as
exactly the bits, or they are refused. Nothing wraps around that is not written as bits.
-/

namespace StackMachine

namespace Numeral

variable {base n : Nat} {c : Char} {d : Nat} {ds cs sign : List Char} {negative : Bool}

/-- The character is the digit of a number in a base up to sixteen, in either case. -/
def IsDigit (base : Nat) (c : Char) (d : Nat) : Prop :=
  d < base ∧ (c = d.digitChar ∨ c = d.digitChar.toUpper)

instance (base : Nat) (c : Char) (d : Nat) : Decidable (IsDigit base c d) :=
  inferInstanceAs (Decidable (d < base ∧ (c = d.digitChar ∨ c = d.digitChar.toUpper)))

/-- The number that a row of digits denotes. -/
inductive Denotes (base : Nat) : List Char → Nat → Prop where
  | digit {c : Char} {d : Nat} (h : IsDigit base c d) : Denotes base [c] d
  | more {ds : List Char} {n : Nat} {c : Char} {d : Nat} (hds : Denotes base ds n)
      (h : IsDigit base c d) : Denotes base (ds ++ [c]) (base * n + d)

/-- The integer that a word of decimal digits denotes, with its sign. -/
inductive DenotesInt : List Char → ℤ → Prop where
  | intro {sign ds : List Char} {negative : Bool} {n : Nat} (hsign : Sign sign negative)
      (hds : Denotes 10 ds n) : DenotesInt (sign ++ ds) (signed negative n)

/-- Every row of digits denotes a number. -/
theorem exists_denotes (hne : ds ≠ []) (h : ∀ c ∈ ds, ∃ d, IsDigit base c d) :
    ∃ n, Denotes base ds n := by
  induction ds using List.reverseRecOn with
  | nil => exact absurd rfl hne
  | append_singleton ds c ih =>
    rw [List.forall_mem_append, List.forall_mem_singleton] at h
    obtain ⟨hds, d, hd⟩ := h
    by_cases hnil : ds = []
    · subst hnil
      exact ⟨d, .digit hd⟩
    · obtain ⟨n, hn⟩ := ih hnil hds
      exact ⟨_, hn.more hd⟩

/-- What denotes a number consists of digits. -/
theorem Denotes.exists_isDigit (h : Denotes base ds n) : ∀ c ∈ ds, ∃ d, IsDigit base c d := by
  induction h with
  | digit hc => exact List.forall_mem_singleton.2 ⟨_, hc⟩
  | more _ hc ih => exact List.forall_mem_append.2 ⟨ih, List.forall_mem_singleton.2 ⟨_, hc⟩⟩

/-- No number is denoted without digits. -/
theorem Denotes.ne_nil (h : Denotes base ds n) : ds ≠ [] := by
  cases h with
  | digit => exact List.cons_ne_nil _ _
  | more => exact List.append_ne_nil_of_right_ne_nil _ (List.cons_ne_nil _ _)

/-! ### Decimal digits -/

/-- A decimal digit is a digit character, whose code tells its value. -/
theorem IsDigit.isDigit (h : IsDigit 10 c d) : c.isDigit ∧ c.toNat - '0'.toNat = d := by
  have hall : ∀ d < 10, d.digitChar.toUpper = d.digitChar ∧ d.digitChar.isDigit ∧
      d.digitChar.toNat - '0'.toNat = d := by decide
  obtain ⟨hupper, hdigit⟩ := hall d h.1
  rcases h.2 with rfl | rfl
  · exact hdigit
  · rwa [hupper]

/-- Every digit character is a decimal digit. -/
theorem exists_isDigit_of_isDigit (h : c.isDigit) : ∃ d, IsDigit 10 c d := by
  have hrange : 48 ≤ c.toNat ∧ c.toNat ≤ 57 := by
    simp only [Char.isDigit, Bool.and_eq_true, decide_eq_true_eq, UInt32.le_iff_toNat_le] at h
    exact h
  refine ⟨c.toNat - 48, by omega, .inl (Char.toNat_inj.1 ?_)⟩
  rw [Nat.toNat_digitChar_of_lt_ten (by omega)]
  omega

/-- The digits of a decimal number are digit characters. -/
theorem Denotes.isDigit (h : Denotes 10 ds n) : ∀ c ∈ ds, c.isDigit := by
  intro c hc
  obtain ⟨d, hd⟩ := h.exists_isDigit c hc
  exact hd.isDigit.1

/-- Digits are read as the number that they denote. -/
theorem value_of_denotes (h : Denotes 10 ds n) : value ds = n := by
  have hdigit {c : Char} {d n : Nat} (hd : IsDigit 10 c d) :
      10 * n + (c.toNat - '0'.toNat) = 10 * n + d := by rw [hd.isDigit.2]
  induction h with
  | digit hc => exact (hdigit hc (n := 0)).trans (Nat.zero_add _)
  | more _ hc ih =>
    rw [value, Nat.ofDigitChars_append, ← value, ih]
    exact hdigit hc

/-- Decimal digits are read as the number that they denote. -/
theorem readDigits?_eq_some_iff : readDigits? ds = some n ↔ Denotes 10 ds n := by
  have hread {m : Nat} (h : Denotes 10 ds m) : readDigits? ds = some m := by
    rw [readDigits?_of_digits h.ne_nil h.isDigit, value_of_denotes h]
  refine ⟨fun h => ?_, hread⟩
  have hds : ds ≠ [] ∧ ds.all Char.isDigit := by
    by_contra hnot
    rw [readDigits?, if_neg hnot] at h
    cases h
  obtain ⟨m, hm⟩ := exists_denotes hds.1 fun c hc =>
    exists_isDigit_of_isDigit (List.all_eq_true.1 hds.2 c hc)
  obtain rfl : n = m := Option.some.inj (h.symm.trans (hread hm))
  exact hm

/-- What is split off in front is a sign or nothing. -/
theorem exists_sign (cs : List Char) :
    ∃ sign, Sign sign (splitSign cs).1 ∧ sign ++ (splitSign cs).2 = cs := by
  unfold splitSign
  split
  · exact ⟨_, .minus, rfl⟩
  · exact ⟨_, .plus, rfl⟩
  · exact ⟨_, .none, rfl⟩

/-- Digits after a sign are read as the integer that they denote, and nothing else is read. -/
theorem readInt?_eq_some_iff {n : ℤ} : readInt? cs = some n ↔ DenotesInt cs n := by
  constructor
  · intro h
    rw [readInt?_eq, Option.map_eq_some_iff] at h
    obtain ⟨m, hm, rfl⟩ := h
    obtain ⟨sign, hsign, hcs⟩ := exists_sign cs
    have hdenotes := DenotesInt.intro hsign (readDigits?_eq_some_iff.1 hm)
    rwa [hcs] at hdenotes
  · rintro ⟨hsign, hds⟩
    obtain ⟨d, ds', rfl⟩ := List.exists_cons_of_ne_nil hds.ne_nil
    rw [readInt?_eq, splitSign_append hsign (hds.isDigit d (List.mem_cons_self ..)),
      readDigits?_eq_some_iff.2 hds]
    rfl

/-- A hexadecimal digit is read as its value, in upper or lower case. -/
theorem IsDigit.hexDigit? (h : IsDigit 16 c d) : hexDigit? c = some d := by
  have hall : ∀ d < 16, Numeral.hexDigit? d.digitChar = some d ∧
      Numeral.hexDigit? d.digitChar.toUpper = some d := by decide
  rcases h.2 with rfl | rfl
  · exact (hall d h.1).1
  · exact (hall d h.1).2

/-- Signs and letters that are not of a hexadecimal digit are not among the digits. -/
theorem Denotes.notMem (h : Denotes 16 ds n) (hc : hexDigit? c = none) : c ∉ ds := by
  intro hmem
  obtain ⟨d, hd⟩ := h.exists_isDigit c hmem
  cases hc.symm.trans hd.hexDigit?

/-- Hexadecimal digits are read as the number that they denote. -/
theorem readHexDigits?_of_denotes (h : Denotes 16 ds n) : readHexDigits? ds = some n := by
  have hvalues : ∃ vs, ds.mapM hexDigit? = some vs ∧ vs.foldl (fun n d => 16 * n + d) 0 = n := by
    induction h with
    | @digit c d hc => exact ⟨[d], by simp [hc.hexDigit?], by simp⟩
    | @more ds n c d _ hc ih =>
      obtain ⟨vs, hvs, hvalue⟩ := ih
      refine ⟨vs ++ [d], by simp [List.mapM_append, hvs, hc.hexDigit?], ?_⟩
      rw [List.foldl_append, hvalue]
      rfl
  obtain ⟨vs, hvs, hvalue⟩ := hvalues
  rw [readHexDigits?, if_neg h.ne_nil, hvs, Option.map_some, hvalue]

/-- Hexadecimal digits are read as the number that they denote. -/
theorem readHex?_of_denotes (h : Denotes 16 ds n) : readHex? ds = some n := by
  unfold readHex?
  split
  · exact absurd (List.mem_cons_self ..) (h.notMem (c := '+') (by decide))
  · exact readHexDigits?_of_denotes h

end Numeral

namespace Assembly

open Numeral
open Token (Layout)

/-- What is read is what stands for a number, if that fits, and is refused if it does not. -/
structure ReadsExactly {ε α β : Type} (outcome : Except ε β) (fits : Prop) (made : α → β)
    (stands : α → Prop) (refusal : ε) : Prop where
  accepted : fits → ∃ a, stands a ∧ outcome = .ok (made a)
  refused : ¬ fits → outcome = .error refusal

/-- What is read goes on to be what stands for the number. -/
theorem ReadsExactly.bind {ε α α' β γ : Type} {outcome : Except ε β} {fits : Prop} {made : α → β}
    {stands : α → Prop} {refusal : ε} (h : ReadsExactly outcome fits made stands refusal)
    {rest : β → Except ε γ} {made' : α' → γ} {stands' : α' → Prop} (next : α → α')
    (hrest : ∀ a, stands a → rest (made a) = .ok (made' (next a)))
    (hstands : ∀ a, stands a → stands' (next a)) :
    ReadsExactly (outcome >>= rest) fits made' stands' refusal where
  accepted hfits := by
    obtain ⟨a, ha, houtcome⟩ := h.accepted hfits
    refine ⟨next a, hstands a ha, ?_⟩
    rw [houtcome]
    exact hrest a ha
  refused hfits := by
    rw [h.refused hfits]
    rfl

/-! ### Values -/

variable {α : Type} {cs ds sign : List Char} {negative : Bool} {c d : Char}

/-- The mark of a hexadecimal number is looked for before anything else. -/
theorem numberLiteral?_hex (hsign : Sign sign negative) {mark : Char}
    (hmark : mark = 'x' ∨ mark = 'X') (cs : List Char) :
    numberLiteral? (sign ++ '0' :: mark :: cs) = hexLiteral? negative cs := by
  have hsplit := splitSign_append hsign (d := '0') (by decide) (mark :: cs)
  unfold numberLiteral?
  rw [hsplit]
  rcases hmark with rfl | rfl <;> rfl

section

variable {w : String}

variable (owner : String) (expected : Nat) (rest : List Token)

end

end Assembly

end StackMachine
