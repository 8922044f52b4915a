import StackMachine.Proofs.DecimalGrammar

/-!
# Reading floating-point numbers

A float is told by its suffix, and a double by its suffix, by its point or exponent, or by being a
special number. Which words these are is said by a grammar that knows nothing of the order in which
suffixes are looked for. The words that are read are exactly those of the grammar, as special
numbers or as what their decimals round to, and none of them is a word of two kinds.
-/

namespace StackMachine

namespace Numeral

/-- What is no sign is found behind the sign. -/
theorem mem_splitSign {cs : List Char} {c : Char} (h : c ∈ cs) (hc : c ≠ '-' ∧ c ≠ '+') :
    c ∈ (splitSign cs).2 := by
  unfold splitSign
  split
  · exact List.mem_of_ne_of_mem hc.1 h
  · exact List.mem_of_ne_of_mem hc.2 h
  · exact h

end Numeral

namespace Decimal

open Numeral

variable {cs ms es : List Char} {negative : Bool} {q : ℚ} {e : ℤ}

/-- A character that decimal numbers are written with. -/
def isBodyChar (c : Char) : Bool := c.isDigit || ['+', '-', '.', 'e', 'E'].contains c

theorem isBodyChar_of_isDigit {c : Char} (h : c.isDigit) : isBodyChar c := by
  rw [isBodyChar, h, Bool.true_or]

theorem forall_mem_sign {sign : List Char} (h : Sign sign negative) : ∀ c ∈ sign, isBodyChar c := by
  cases h with
  | none => exact List.forall_mem_nil _
  | plus => exact List.forall_mem_singleton.2 (by decide)
  | minus => exact List.forall_mem_singleton.2 (by decide)

/-- A mantissa is written with such characters only. -/
theorem Mantissa.forall_mem (h : Mantissa ms q) : ∀ c ∈ ms, isBodyChar c := by
  obtain ⟨whole, fraction, hdigits, -, -, hms⟩ := mantissa_iff.1 h
  obtain ⟨hwhole, hfraction⟩ := List.forall_mem_append.1 hdigits
  have hdigit {l : List Char} (hl : ∀ c ∈ l, c.isDigit) : ∀ c ∈ l, isBodyChar c :=
    fun c hc => isBodyChar_of_isDigit (hl c hc)
  rcases hms with rfl | ⟨-, rfl⟩
  · exact List.forall_mem_append.2 ⟨hdigit hwhole,
      List.forall_mem_cons.2 ⟨by decide, hdigit hfraction⟩⟩
  · exact hdigit hwhole

theorem Power.forall_mem (h : Power es e) : ∀ c ∈ es, isBodyChar c := by
  cases h with
  | none => exact List.forall_mem_nil _
  | exponent hletter h =>
    obtain ⟨hsign, hds⟩ := h
    refine List.forall_mem_cons.2 ⟨?_, List.forall_mem_append.2 ⟨forall_mem_sign hsign, ?_⟩⟩
    · rcases hletter with rfl | rfl <;> decide
    · exact fun c hc => isBodyChar_of_isDigit (hds.isDigit c hc)

/-- A decimal number has no other characters than these. -/
theorem Body.forall_mem (h : Body cs negative q) : ∀ c ∈ cs, isBodyChar c := by
  obtain ⟨hsign, hms, hes⟩ := h
  exact List.forall_mem_append.2 ⟨forall_mem_sign hsign,
    List.forall_mem_append.2 ⟨hms.forall_mem, hes.forall_mem⟩⟩

/-- Every other character is missing from a decimal number. -/
theorem Body.notMem (h : Body cs negative q) {c : Char} (hc : isBodyChar c = false) : c ∉ cs := by
  intro hmem
  cases (h.forall_mem c hmem).symm.trans hc

/-- An integer is a decimal number. -/
theorem exists_body_of_denotesInt {n : ℤ} (h : DenotesInt cs n) :
    ∃ negative q, Body cs negative q := by
  obtain @⟨sign, ds, negative, m, hsign, hds⟩ := h
  have hbody := Body.intro hsign (.whole hds) .none
  rw [List.append_nil] at hbody
  exact ⟨_, _, hbody⟩

/-- A decimal number looks like a number, whatever follows it. -/
theorem Body.looksNumeric (h : Body cs negative q) (rest : List Char) :
    Assembly.looksNumeric (cs ++ rest) := by
  obtain ⟨hsign, hms, hes⟩ := h
  obtain ⟨c, ms', rfl, hc⟩ := hms.exists_cons
  rw [List.append_assoc, Assembly.looksNumeric_append hsign]
  exact Assembly.looksNumeric_cons (hc.imp_right .inl) _

end Decimal

namespace Assembly

open Numeral
open Binary (RoundsTo)
open Decimal (Body)
open Token (Layout)

variable {f : Format} {cs : List Char} {l : Literal} {w : String}

/-- The text of a special number. -/
inductive Special {f : Format} : List Char → Binary f → Prop where
  | nan : Special "NaN".toList .nan
  | infinity {sign : List Char} {negative : Bool} (hsign : Sign sign negative) :
      Special (sign ++ "Infinity".toList) (.infinity negative)

/-- The text of a number, which is a special one or what a decimal number rounds to. -/
inductive Floating {f : Format} : List Char → Binary f → Prop where
  | special {cs : List Char} {x : Binary f} (h : Special cs x) : Floating cs x
  | decimal {cs : List Char} {negative : Bool} {q : ℚ} {x : Binary f} (h : Body cs negative q)
      (hx : RoundsTo negative q x) : Floating cs x

/-- The word of a float, which has to have a suffix. -/
inductive FloatWord : List Char → Single → Prop where
  | suffixed {cs : List Char} {x : Single} {suffix : Char} (h : Floating cs x)
      (hsuffix : suffix = 'F' ∨ suffix = 'f') : FloatWord (cs ++ [suffix]) x

/-- The word of a double. It needs no suffix if nothing else could be meant. -/
inductive DoubleWord : List Char → Double → Prop where
  | suffixed {cs : List Char} {x : Double} {suffix : Char} (h : Floating cs x)
      (hsuffix : suffix = 'D' ∨ suffix = 'd') : DoubleWord (cs ++ [suffix]) x
  | special {cs : List Char} {x : Double} (h : Special cs x) : DoubleWord cs x
  | decimal {cs : List Char} {negative : Bool} {q : ℚ} {x : Double} (h : Body cs negative q)
      (hx : RoundsTo negative q x) (hmark : '.' ∈ cs ∨ 'e' ∈ cs ∨ 'E' ∈ cs) : DoubleWord cs x

/-- The word of a number that is not in hexadecimal. -/
inductive NumberWord : List Char → Literal → Prop where
  | int {cs : List Char} {n : ℤ} (h : DenotesInt cs n)
      (hfits : Int32.minValue.toInt ≤ n ∧ n ≤ Int32.maxValue.toInt) :
      NumberWord cs (.int (.ofInt n))
  | long {cs : List Char} {n : ℤ} {suffix : Char} (h : DenotesInt cs n)
      (hfits : Int64.minValue.toInt ≤ n ∧ n ≤ Int64.maxValue.toInt)
      (hsuffix : suffix = 'L' ∨ suffix = 'l') : NumberWord (cs ++ [suffix]) (.long (.ofInt n))
  | float {cs : List Char} {x : Single} (h : FloatWord cs x) : NumberWord cs (.float x)
  | double {cs : List Char} {x : Double} (h : DoubleWord cs x) : NumberWord cs (.double x)

/-- The word begins as hexadecimal numbers do. -/
def Marked (cs : List Char) : Prop :=
  ∃ sign negative mark hex, Sign sign negative ∧ (mark = 'x' ∨ mark = 'X') ∧
    cs = sign ++ '0' :: mark :: hex

/-! ### Numbers -/

/-- A text is read as a binary number exactly if it denotes it. -/
theorem readBinary?_eq_some_iff (hf : 2 ≤ f.exponentBits) (hfraction : 1 ≤ f.fractionBits)
    {x : Binary f} : readBinary? cs = some x ↔ Floating cs x := by
  constructor
  · intro h
    unfold readBinary? at h
    split at h
    · rename_i he
      cases he
      cases h
      exact .special .nan
    split at h
    · rename_i he
      cases h
      rcases he with rfl | rfl
      · exact .special (.infinity .none)
      · exact .special (.infinity .plus)
    split at h
    · rename_i he
      cases he
      cases h
      exact .special (.infinity .minus)
    · obtain ⟨d, hd, rfl⟩ := Option.map_eq_some_iff.1 h
      exact .decimal (Decimal.body_of_read? hd) (Binary.roundsTo_ofDecimal hf hfraction d)
  · intro h
    cases h with
    | special h =>
      cases h with
      | nan => rfl
      | infinity hsign => cases hsign <;> rfl
    | decimal h hx =>
      obtain ⟨d, hd, rfl, rfl⟩ := Decimal.exists_read?_of_body h
      rw [readBinary?_of_read? hd, (Binary.roundsTo_ofDecimal hf hfraction d).unique hf hx]

/-- A text is read as a float exactly if it denotes it. -/
theorem readBinary?_single_iff {x : Single} : readBinary? cs = some x ↔ Floating cs x :=
  readBinary?_eq_some_iff (by decide) (by decide)

theorem readBinary?_double_iff {x : Double} : readBinary? cs = some x ↔ Floating cs x :=
  readBinary?_eq_some_iff (by decide) (by decide)

/-- A floating literal looks like a number whatever comes after it. -/
theorem Floating.looksNumeric {x : Binary f} (h : Floating cs x) (rest : List Char) :
    looksNumeric (cs ++ rest) := by
  cases h with
  | special h =>
    cases h with
    | nan => exact looksNumeric_cons (.inr (.inr (.inl rfl))) _
    | infinity hsign =>
      rw [List.append_assoc, looksNumeric_append hsign]
      exact looksNumeric_cons (.inr (.inr (.inr rfl))) _
  | decimal h _ => exact h.looksNumeric rest

/-! ### Words -/

/-- A decimal number does not end in a character that it cannot have. -/
theorem stripSuffix?_body {negative : Bool} {q : ℚ} (h : Body cs negative q) {upper lower : Char}
    (hupper : Decimal.isBodyChar upper = false) (hlower : Decimal.isBodyChar lower = false) :
    stripSuffix? upper lower cs = none :=
  stripSuffix?_of_notMem (h.notMem hupper) (h.notMem hlower)

/-- A decimal number with a point or an exponent is a double. -/
theorem isPlainDouble_iff {negative : Bool} {q : ℚ} (h : Body cs negative q) :
    isPlainDouble (splitSign cs).2 ↔ '.' ∈ cs ∨ 'e' ∈ cs ∨ 'E' ∈ cs := by
  have hspecial {s : List Char} (hs : ¬ s.all Decimal.isBodyChar) : (splitSign cs).2 ≠ s := by
    rintro rfl
    exact hs (List.all_eq_true.2 fun c hc => h.forall_mem c (mem_of_mem_splitSign hc))
  have hmem {c : Char} (hc : c ≠ '-' ∧ c ≠ '+') : c ∈ (splitSign cs).2 ↔ c ∈ cs :=
    ⟨mem_of_mem_splitSign, fun h => mem_splitSign h hc⟩
  have hnan := hspecial (s := "NaN".toList) (by decide)
  have hinfinity := hspecial (s := "Infinity".toList) (by decide)
  simp only [isPlainDouble, Bool.or_eq_true, decide_eq_true_eq, hnan, hinfinity, or_false,
    List.any_eq_true]
  rw [← hmem (c := '.') (by decide), ← hmem (c := 'e') (by decide), ← hmem (c := 'E') (by decide)]
  constructor
  · rintro ⟨c, hc, (rfl | rfl) | rfl⟩
    · exact .inl hc
    · exact .inr (.inl hc)
    · exact .inr (.inr hc)
  · rintro (hc | hc | hc)
    · exact ⟨_, hc, .inl (.inl rfl)⟩
    · exact ⟨_, hc, .inl (.inr rfl)⟩
    · exact ⟨_, hc, .inr rfl⟩

/-- What is not marked as hexadecimal does not begin like a hexadecimal number. -/
theorem ne_of_not_marked (h : ¬ Marked cs) (c : Char) (hex : List Char) (hc : c = 'x' ∨ c = 'X') :
    (splitSign cs).2 ≠ '0' :: c :: hex := by
  intro he
  obtain ⟨sign, hsign, hcs⟩ := exists_sign cs
  rw [he] at hcs
  exact h ⟨sign, _, c, hex, hsign, hc, hcs.symm⟩

/-- A text is read as an int exactly if it denotes a number in the range. -/
theorem intLiteral?_eq_some_iff : intLiteral? cs = some l ↔
    ∃ n, DenotesInt cs n ∧ (Int32.minValue.toInt ≤ n ∧ n ≤ Int32.maxValue.toInt) ∧
      l = .int (.ofInt n) := by
  simp only [intLiteral?, Option.bind_eq_some_iff, readInt?_eq_some_iff,
    Option.ite_none_right_eq_some, Option.some.injEq, eq_comm (a := l)]

theorem longLiteral?_eq_some_iff : longLiteral? cs = some l ↔
    ∃ n, DenotesInt cs n ∧ (Int64.minValue.toInt ≤ n ∧ n ≤ Int64.maxValue.toInt) ∧
      l = .long (.ofInt n) := by
  simp only [longLiteral?, Option.bind_eq_some_iff, readInt?_eq_some_iff,
    Option.ite_none_right_eq_some, Option.some.injEq, eq_comm (a := l)]

/-- A word of the grammar is read. -/
theorem numberLiteral?_of_numberWord (hmark : ¬ Marked cs) (h : NumberWord cs l) :
    numberLiteral? cs = some l := by
  cases h with
  | int h hfits =>
    have hread := intLiteral?_eq_some_iff.2 ⟨_, h, hfits, rfl⟩
    obtain ⟨hsign, hds⟩ := h
    rwa [numberLiteral?_digits hsign hds.ne_nil hds.isDigit]
  | long h hfits hsuffix =>
    have hread := longLiteral?_eq_some_iff.2 ⟨_, h, hfits, rfl⟩
    obtain ⟨hsign, hds⟩ := h
    rwa [numberLiteral?_long (not_mark_of_sign_append hsign hds.isDigit) hsuffix]
  | float h =>
    obtain ⟨hx, hsuffix⟩ := h
    rw [numberLiteral?_of_unmarked (ne_of_not_marked hmark), stripSuffix?_concat,
      stripSuffix?_concat, if_neg (by rcases hsuffix with rfl | rfl <;> decide), if_pos hsuffix]
    exact Option.map_eq_some_iff.2 ⟨_, readBinary?_single_iff.2 hx, rfl⟩
  | double h =>
    rw [numberLiteral?_of_unmarked (ne_of_not_marked hmark)]
    cases h with
    | suffixed hx hsuffix =>
      rw [stripSuffix?_concat, stripSuffix?_concat, stripSuffix?_concat,
        if_neg (by rcases hsuffix with rfl | rfl <;> decide),
        if_neg (by rcases hsuffix with rfl | rfl <;> decide), if_pos hsuffix]
      exact Option.map_eq_some_iff.2 ⟨_, readBinary?_double_iff.2 hx, rfl⟩
    | special h =>
      cases h with
      | nan => rfl
      | infinity hsign => cases hsign <;> rfl
    | decimal h hx hplain =>
      rw [stripSuffix?_body h rfl rfl, stripSuffix?_body h rfl rfl, stripSuffix?_body h rfl rfl,
        if_pos ((isPlainDouble_iff h).2 hplain)]
      exact Option.map_eq_some_iff.2 ⟨_, readBinary?_double_iff.2 (.decimal h hx), rfl⟩

/-- Every word for a number looks like one. -/
theorem NumberWord.looksNumeric (h : NumberWord cs l) : looksNumeric cs := by
  cases h with
  | int h _ =>
    obtain ⟨_, _, hbody⟩ := Decimal.exists_body_of_denotesInt h
    exact cs.append_nil ▸ hbody.looksNumeric []
  | long h _ _ =>
    obtain ⟨_, _, hbody⟩ := Decimal.exists_body_of_denotesInt h
    exact hbody.looksNumeric _
  | float h =>
    obtain ⟨hx, _⟩ := h
    exact hx.looksNumeric _
  | double h =>
    cases h with
    | suffixed hx _ => exact hx.looksNumeric _
    | special h => exact cs.append_nil ▸ (Floating.special h).looksNumeric []
    | decimal h hx _ => exact cs.append_nil ▸ (Floating.decimal h hx).looksNumeric []

/-- No word is one of two numbers. -/
theorem NumberWord.unique {l' : Literal} (hmark : ¬ Marked cs) (h : NumberWord cs l)
    (h' : NumberWord cs l') : l = l' :=
  Option.some.inj ((numberLiteral?_of_numberWord hmark h).symm.trans
    (numberLiteral?_of_numberWord hmark h'))

/-- No word for a number is the one for the null reference. -/
theorem NumberWord.ne_null (h : NumberWord w.toList l) : w ≠ "null" := by
  rintro rfl
  cases h.looksNumeric

section

variable {op : Opcode} {wide : Bool} {line : List Char}

/-- How infinities and NaNs are spelled elsewhere, in lower case. -/
def foreignNames : List (List Char) :=
  ["inf".toList, "+inf".toList, "-inf".toList, "infinity".toList, "+infinity".toList,
    "-infinity".toList, "nan".toList, "+nan".toList, "-nan".toList]

/-- A spelling of an infinity or a NaN, in any case, that is not the one for special numbers. -/
structure Foreign (cs : List Char) : Prop where
  name : cs.map Char.toLower ∈ foreignNames
  not_special : ∀ x : Double, ¬ Special cs x

end

end Assembly

end StackMachine
