import StackMachine.Assembly.Number
import StackMachine.Opcode.Lemmas

/-!
# Reading back words

Numerals are read as what they were written for. A numeral holds nothing but digits after
its sign, so the words that are made of numerals are told apart by their suffixes.
-/

namespace StackMachine

namespace Numeral

/-- A decimal text consists of digits. -/
theorem isDigit_of_mem_ofNat {n : Nat} {c : Char} (h : c ∈ ofNat n) : c.isDigit :=
  Nat.isDigit_of_mem_toDigits (by decide) (by decide) h

theorem ofNat_ne_nil (n : Nat) : ofNat n ≠ [] := Nat.toDigits_ne_nil

/-- The first digit of a numeral, and those that follow it. -/
theorem exists_ofNat_eq_cons (n : Nat) :
    ∃ d ds, ofNat n = d :: ds ∧ d.isDigit ∧ ∀ c ∈ ds, c.isDigit := by
  cases h : ofNat n with
  | nil => exact absurd h (ofNat_ne_nil n)
  | cons d ds =>
    refine ⟨d, ds, rfl, isDigit_of_mem_ofNat (h ▸ List.mem_cons_self ..), fun c hc => ?_⟩
    exact isDigit_of_mem_ofNat (h ▸ List.mem_cons_of_mem _ hc)

/-- Digits are read as their value. -/
theorem readDigits?_of_digits {ds : List Char} (hne : ds ≠ []) (h : ∀ c ∈ ds, c.isDigit) :
    readDigits? ds = some (value ds) :=
  if_pos ⟨hne, List.all_eq_true.2 h⟩

@[simp] theorem readDigits?_ofNat (n : Nat) : readDigits? (ofNat n) = some n := by
  rw [readDigits?_of_digits (ofNat_ne_nil n) fun c => isDigit_of_mem_ofNat, value_ofNat]

/-- Nothing is split off a text that does not begin with a sign. -/
theorem splitSign_of_ne {d : Char} (h : d ≠ '-' ∧ d ≠ '+') (cs : List Char) :
    splitSign (d :: cs) = (false, d :: cs) := by
  unfold splitSign
  split
  · rename_i he
    cases he
    exact absurd rfl h.1
  · rename_i he
    cases he
    exact absurd rfl h.2
  · rfl

/-- A digit is no sign. -/
theorem ne_sign_of_isDigit {d : Char} (h : d.isDigit) : d ≠ '-' ∧ d ≠ '+' := by
  constructor <;> rintro rfl <;> cases h

/-- A sign, which may be missing, and whether it is a minus sign. -/
inductive Sign : List Char → Bool → Prop where
  | none : Sign [] false
  | plus : Sign ['+'] false
  | minus : Sign ['-'] true

/-- A sign is split off what follows it, if that does not begin with another one. -/
theorem splitSign_append_of_ne {sign : List Char} {negative : Bool} (h : Sign sign negative)
    {d : Char} (hd : d ≠ '-' ∧ d ≠ '+') (cs : List Char) :
    splitSign (sign ++ d :: cs) = (negative, d :: cs) := by
  cases h with
  | none => exact splitSign_of_ne hd cs
  | plus => rfl
  | minus => rfl

/-- A sign is split off when a digit comes after it. -/
theorem splitSign_append {sign : List Char} {negative : Bool} (h : Sign sign negative) {d : Char}
    (hd : d.isDigit) (cs : List Char) : splitSign (sign ++ d :: cs) = (negative, d :: cs) :=
  splitSign_append_of_ne h (ne_sign_of_isDigit hd) cs

/-- A natural number has no sign to split off. -/
theorem splitSign_ofNat (n : Nat) : splitSign (ofNat n) = (false, ofNat n) := by
  obtain ⟨d, ds, hd, hdigit, -⟩ := exists_ofNat_eq_cons n
  rw [hd]
  exact splitSign_of_ne (ne_sign_of_isDigit hdigit) ds

/-- A natural number is read back from its decimal text. -/
theorem readNat?_ofNat (n : Nat) : readNat? (ofNat n) = some n := by
  obtain ⟨d, ds, hd, hdigit, -⟩ := exists_ofNat_eq_cons n
  have hread := readDigits?_ofNat n
  rw [hd] at hread ⊢
  unfold readNat?
  split
  · rename_i he
    cases he
    cases hdigit
  · exact hread

/-- The value of digits with a sign. -/
def signed (negative : Bool) (n : Nat) : Int := if negative then -(n : Int) else n

/-- An integer is read as its sign and its digits. -/
theorem readInt?_eq (cs : List Char) :
    readInt? cs = (readDigits? (splitSign cs).2).map (signed (splitSign cs).1) := by
  unfold readInt?
  dsimp only
  cases readDigits? (splitSign cs).2 <;> rfl

/-- An integer is made of its sign and its size. -/
theorem signed_natAbs (n : Int) : signed (n < 0) n.natAbs = n := by
  unfold signed
  by_cases hn : n < 0
  · rw [if_pos (by simpa using hn)]
    omega
  · rw [if_neg (by simpa using hn)]
    omega

/-- The sign is split off a decimal text. -/
theorem splitSign_ofInt (n : Int) : splitSign (ofInt n) = (decide (n < 0), ofNat n.natAbs) := by
  unfold ofInt
  by_cases hn : n < 0
  · rw [if_pos hn, decide_eq_true hn]
    rfl
  · rw [if_neg hn, decide_eq_false hn, splitSign_ofNat]

theorem splitSign_ofIntSigned (n : Int) :
    splitSign (ofIntSigned n) = (decide (n < 0), ofNat n.natAbs) := by
  unfold ofIntSigned
  by_cases hn : n < 0
  · rw [if_pos hn, decide_eq_true hn]
    rfl
  · rw [if_neg hn, decide_eq_false hn]
    rfl

/-- An integer is read back from its decimal text. -/
theorem readInt?_ofInt (n : Int) : readInt? (ofInt n) = some n := by
  rw [readInt?_eq, splitSign_ofInt, readDigits?_ofNat, Option.map_some, signed_natAbs]

theorem readInt?_ofIntSigned (n : Int) : readInt? (ofIntSigned n) = some n := by
  rw [readInt?_eq, splitSign_ofIntSigned, readDigits?_ofNat, Option.map_some, signed_natAbs]

/-- A hexadecimal digit is read back from its character. -/
theorem hexDigit?_digitChar {n : Nat} (h : n < 16) : hexDigit? n.digitChar = some n := by
  have hall : ∀ n < 16, hexDigit? n.digitChar = some n := by decide
  exact hall n h

/-- The digits of a number in hexadecimal have its value. -/
theorem mapM_hexOfNat (n : Nat) : ∃ ds, (hexOfNat n).mapM hexDigit? = some ds ∧
    ds.foldl (fun m d => 16 * m + d) 0 = n := by
  unfold hexOfNat
  by_cases hn : n < 16
  · rw [Nat.toDigits_of_lt_base hn]
    exact ⟨[n], by simp [hexDigit?_digitChar hn], by simp⟩
  · obtain ⟨ds, hds, hvalue⟩ := mapM_hexOfNat (n / 16)
    unfold hexOfNat at hds
    rw [Nat.toDigits_of_base_le (by decide) (Nat.le_of_not_lt hn)]
    have hlast := hexDigit?_digitChar (Nat.mod_lt n (by decide : 0 < 16))
    refine ⟨ds ++ [n % 16], by simp [List.mapM_append, hds, hlast], ?_⟩
    rw [List.foldl_append, hvalue]
    simp only [List.foldl_cons, List.foldl_nil]
    omega

/-- A hexadecimal digit is the letter of a number below sixteen. -/
theorem exists_of_mem_hexOfNat {n : Nat} {c : Char} (h : c ∈ hexOfNat n) :
    ∃ m < 16, c = m.digitChar := by
  unfold hexOfNat at h
  by_cases hn : n < 16
  · rw [Nat.toDigits_of_lt_base hn, List.mem_singleton] at h
    exact ⟨n, hn, h⟩
  · rw [Nat.toDigits_of_base_le (by decide) (Nat.le_of_not_lt hn), List.mem_append] at h
    rcases h with h | h
    · exact exists_of_mem_hexOfNat (n := n / 16) h
    · exact ⟨n % 16, Nat.mod_lt n (by decide), List.mem_singleton.1 h⟩

/-- Characters other than hexadecimal digits are not among them. -/
theorem notMem_hexOfNat {n : Nat} {c : Char} (h : ∀ m < 16, m.digitChar ≠ c) :
    c ∉ hexOfNat n := by
  intro hc
  obtain ⟨m, hm, rfl⟩ := exists_of_mem_hexOfNat hc
  exact h m hm rfl

/-- A natural number is read back from its hexadecimal digits. -/
theorem readHexDigits?_hexOfNat (n : Nat) : readHexDigits? (hexOfNat n) = some n := by
  obtain ⟨ds, hds, hvalue⟩ := mapM_hexOfNat n
  have hne : hexOfNat n ≠ [] := Nat.toDigits_ne_nil
  rw [readHexDigits?, if_neg hne, hds, Option.map_some, hvalue]

theorem readHex?_hexOfNat (n : Nat) : readHex? (hexOfNat n) = some n := by
  rw [← readHexDigits?_hexOfNat n]
  unfold readHex?
  split
  · rename_i cs he
    have hplus : '+' ∈ hexOfNat n := he ▸ List.mem_cons_self ..
    exact absurd hplus (notMem_hexOfNat (by decide))
  · rfl

end Numeral

end StackMachine
