import StackMachine.Assembly.Number
import StackMachine.Proofs.DecimalText
import StackMachine.Proofs.Scanning

/-!
# Reading back number words

The word of a number is told by its suffix, or by having none, and holds what is read as
the number. It never looks like a hexadecimal number, for there is no such letter in it.
The only thing that is lost is the payload of a NaN.
-/

namespace StackMachine

open Numeral

namespace Numeral

/-- The characters of numbers are characters of words. -/
theorem isWordChar_of_isNumberChar {c : Char} (h : isNumberChar c) :
    Assembly.Token.isWordChar c := by
  rw [isNumberChar, Bool.or_eq_true] at h
  rcases h with h | h
  · have hrange : 48 ≤ c.toNat ∧ c.toNat ≤ 57 := by
      simp only [Char.isDigit, Bool.and_eq_true, decide_eq_true_eq, UInt32.le_iff_toNat_le] at h
      exact h
    have hquote : c ≠ '"' := by
      rintro rfl
      cases h
    simp only [Assembly.Token.isWordChar, Text.isBlank, Text.blankRanges, List.any_cons,
      List.any_nil, Bool.and_eq_true, Bool.not_eq_true', decide_eq_true_eq]
    refine ⟨?_, hquote⟩
    simp
    omega
  · have hall : "+-.eLfdNaNInfinity".toList.all Assembly.Token.isWordChar := by decide
    exact List.all_eq_true.1 hall c (List.contains_iff_mem.1 h)

/-- Characters of words make a word if there is no semicolon among them. -/
theorem isWord_of_isWordChar {cs : List Char} (hne : cs ≠ [])
    (h : ∀ c ∈ cs, Assembly.Token.isWordChar c) (hcomment : ';' ∉ cs) :
    Assembly.IsWord (String.ofList cs) where
  ne_empty := by
    intro he
    rw [← String.toList_eq_nil_iff, String.toList_ofList] at he
    exact hne he
  isWordChar := by
    rw [String.toList_ofList]
    exact h
  no_comment := by
    rw [String.toList_ofList]
    exact fun he => hcomment (List.mem_of_head? he)

/-- Characters of numbers make a word. -/
theorem isWord_of_isNumberChar {cs : List Char} (hne : cs ≠ []) (h : ∀ c ∈ cs, isNumberChar c) :
    Assembly.IsWord (String.ofList cs) := by
  refine isWord_of_isWordChar hne (fun c hc => isWordChar_of_isNumberChar (h c hc)) ?_
  intro he
  have hsemicolon := h ';' he
  cases hsemicolon

/-- Without its sign a number has no new characters. -/
theorem mem_of_mem_splitSign {cs : List Char} {c : Char} (h : c ∈ (splitSign cs).2) : c ∈ cs := by
  unfold splitSign at h
  split at h
  · exact List.mem_cons_of_mem _ h
  · exact List.mem_cons_of_mem _ h
  · exact h

end Numeral

namespace Binary

variable {f : Format}

/-- The number, or if it is a NaN that which is read for one. -/
def canonical (x : Binary f) : Binary f := if x.isNaN then nan else x

end Binary

namespace Assembly

variable {f : Format}

/-- The text of a decimal is read as the number nearest to it. -/
theorem readBinary?_of_read? {cs : List Char} {d : Decimal} (h : Decimal.read? cs = some d) :
    readBinary? cs = some (.ofDecimal d : Binary f) := by
  -- None of the special texts is that of a decimal.
  have hne (s : List Char) (hs : Decimal.read? s = none) : cs ≠ s := by
    rintro rfl
    rw [hs] at h
    cases h
  unfold readBinary?
  rw [if_neg (hne _ (by decide)), if_neg, if_neg (hne _ (by decide)), h, Option.map_some]
  rintro (he | he)
  · exact hne _ (by decide) he
  · exact hne _ (by decide) he

/-- The text of a number is read as the number, except for the payload of a NaN. -/
theorem readBinary?_chars (hf : 2 ≤ f.exponentBits) (x : Binary f) :
    readBinary? x.chars = some x.canonical := by
  unfold Binary.canonical
  by_cases hnan : x.isNaN
  · rw [Binary.chars_eq, if_pos hnan, if_pos hnan]
    rfl
  · rw [if_neg hnan]
    by_cases hinfinite : x.isInfinite
    · have hmagnitude : x.magnitude.val = f.infinity := of_decide_eq_true hinfinite
      have hx : Binary.infinity x.negative = x := by
        obtain ⟨negative, m, hm⟩ := x
        obtain rfl : m = f.infinity := hmagnitude
        unfold Binary.infinity Binary.ofParts
        simp only [Nat.mod_eq_of_lt hm]
      rw [Binary.chars_eq, if_neg hnan, if_pos hinfinite]
      cases hneg : x.negative with
      | true => exact congrArg some (hneg ▸ hx)
      | false => exact congrArg some (hneg ▸ hx)
    · have hfinite : x.isFinite := by
        unfold Binary.isNaN Binary.isInfinite Binary.isFinite at *
        rw [decide_eq_true_eq] at *
        omega
      obtain ⟨d, hread, hd⟩ := Binary.read?_chars hf hfinite
      rw [readBinary?_of_read? hread, hd]

/-- A suffix is taken off in upper and in lower case. -/
theorem stripSuffix?_concat (upper lower : Char) (cs : List Char) (c : Char) :
    stripSuffix? upper lower (cs ++ [c]) = if c = upper ∨ c = lower then some cs else none := by
  unfold stripSuffix?
  rw [List.getLast?_concat, List.dropLast_concat]

/-- The last character is none of two letters that are not in a word. -/
theorem stripSuffix?_of_notMem {upper lower : Char} {cs : List Char} (hupper : upper ∉ cs)
    (hlower : lower ∉ cs) : stripSuffix? upper lower cs = none := by
  unfold stripSuffix?
  split
  · rename_i c hc
    have hmem : c ∈ cs := List.mem_of_getLast? hc
    rw [if_neg]
    rintro (rfl | rfl)
    · exact hupper hmem
    · exact hlower hmem
  · rfl

/-- A sign does not matter to whether a word looks like a number. -/
theorem looksNumeric_append {sign : List Char} {negative : Bool} (h : Sign sign negative)
    (cs : List Char) : looksNumeric (sign ++ cs) = looksNumeric cs := by
  unfold looksNumeric
  rw [List.dropWhile_append_of_pos]
  cases h <;> exact List.all_eq_true.1 rfl

/-- A word looks like a number if its first character is one that numbers begin with. -/
theorem looksNumeric_cons {c : Char} (hc : c.isDigit ∨ c = '.' ∨ c = 'N' ∨ c = 'I')
    (cs : List Char) : looksNumeric (c :: cs) := by
  have hsign : ¬ (c = '-' ∨ c = '+') := by
    rintro (rfl | rfl) <;> exact absurd hc (by decide)
  unfold looksNumeric
  rw [List.dropWhile_cons_of_neg (by simpa using hsign)]
  rcases hc with hc | rfl | rfl | rfl
  · simp [hc]
  all_goals rfl

/-- A word looks like a number if a digit, a NaN or an infinity begins behind its sign. -/
theorem looksNumeric_sign {sign : List Char} {negative : Bool} (h : Sign sign negative) {c : Char}
    (hc : c.isDigit ∨ c = 'N' ∨ c = 'I') (cs : List Char) : looksNumeric (sign ++ c :: cs) := by
  rw [looksNumeric_append h]
  exact looksNumeric_cons (hc.imp_right .inr) cs

/-- A word that does not begin as hexadecimal numbers do is told by its suffix. -/
theorem numberLiteral?_of_unmarked {cs : List Char}
    (h : ∀ c hex, c = 'x' ∨ c = 'X' → (splitSign cs).2 ≠ '0' :: c :: hex) :
    numberLiteral? cs =
      match stripSuffix? 'L' 'l' cs with
      | some body => longLiteral? body
      | none =>
        match stripSuffix? 'F' 'f' cs with
        | some body => (readBinary? body).map .float
        | none =>
          match stripSuffix? 'D' 'd' cs with
          | some body => (readBinary? body).map .double
          | none =>
            if isPlainDouble (splitSign cs).2 then (readBinary? cs).map .double
            else intLiteral? cs := by
  unfold numberLiteral?
  dsimp only
  split
  · rename_i hex he
    exact absurd he (h 'x' hex (.inl rfl))
  · rename_i hex he
    exact absurd he (h 'X' hex (.inr rfl))
  · rfl

/-- A word without the mark of hexadecimal numbers is not read as one. -/
theorem numberLiteral?_eq {cs : List Char} (h : ∀ c ∈ cs, ¬ (c = 'x' ∨ c = 'X')) :
    numberLiteral? cs =
      match stripSuffix? 'L' 'l' cs with
      | some body => longLiteral? body
      | none =>
        match stripSuffix? 'F' 'f' cs with
        | some body => (readBinary? body).map .float
        | none =>
          match stripSuffix? 'D' 'd' cs with
          | some body => (readBinary? body).map .double
          | none =>
            if isPlainDouble (splitSign cs).2 then (readBinary? cs).map .double
            else intLiteral? cs := by
  refine numberLiteral?_of_unmarked fun c hex hc he => ?_
  have hmem : c ∈ (splitSign cs).2 := he ▸ List.mem_cons_of_mem _ (List.mem_cons_self ..)
  exact h c (mem_of_mem_splitSign hmem) hc

/-- No character of a printed number marks a hexadecimal one. -/
theorem not_mark_of_isNumberChar {c : Char} (h : isNumberChar c) : ¬ (c = 'x' ∨ c = 'X') := by
  rintro (rfl | rfl) <;> exact absurd h (by decide)

theorem forall_mem_concat {cs : List Char} {c : Char} (h : ∀ d ∈ cs, isNumberChar d)
    (hc : isNumberChar c) : ∀ d ∈ cs ++ [c], isNumberChar d := by
  intro d hd
  rcases List.mem_append.1 hd with hd | hd
  · exact h d hd
  · exact List.mem_singleton.1 hd ▸ hc

/-- What ends in the suffix of longs is read as a long. -/
theorem numberLiteral?_long {cs : List Char} (h : ∀ c ∈ cs, ¬ (c = 'x' ∨ c = 'X')) {suffix : Char}
    (hsuffix : suffix = 'L' ∨ suffix = 'l') :
    numberLiteral? (cs ++ [suffix]) = longLiteral? cs := by
  have hmark : ∀ c ∈ cs ++ [suffix], ¬ (c = 'x' ∨ c = 'X') := by
    refine List.forall_mem_append.2 ⟨h, List.forall_mem_singleton.2 ?_⟩
    rcases hsuffix with rfl | rfl <;> decide
  rw [numberLiteral?_eq hmark, stripSuffix?_concat, if_pos hsuffix]

theorem numberLiteral?_float {cs : List Char} (h : ∀ c ∈ cs, isNumberChar c) :
    numberLiteral? (cs ++ ['f']) = (readBinary? cs).map .float := by
  have hchars := forall_mem_concat (c := 'f') h (by decide)
  rw [numberLiteral?_eq fun c hc => not_mark_of_isNumberChar (hchars c hc), stripSuffix?_concat,
    stripSuffix?_concat]
  rfl

theorem numberLiteral?_double {cs : List Char} (h : ∀ c ∈ cs, isNumberChar c) :
    numberLiteral? (cs ++ ['d']) = (readBinary? cs).map .double := by
  have hchars := forall_mem_concat (c := 'd') h (by decide)
  rw [numberLiteral?_eq fun c hc => not_mark_of_isNumberChar (hchars c hc), stripSuffix?_concat,
    stripSuffix?_concat, stripSuffix?_concat]
  rfl

/-- Digits alone are no double. -/
theorem isPlainDouble_of_digits {ds : List Char} (h : ∀ c ∈ ds, c.isDigit) :
    isPlainDouble ds = false := by
  have hany : ds.any (fun c => c = '.' || c = 'e' || c = 'E') = false := by
    rw [List.any_eq_false]
    intro c hc
    have hdigit := h c hc
    simp only [Bool.or_eq_true, decide_eq_true_eq]
    rintro ((rfl | rfl) | rfl) <;> cases hdigit
  have hspecial {cs : List Char} (hcs : ¬ cs.all Char.isDigit) : ds ≠ cs := by
    rintro rfl
    exact hcs (List.all_eq_true.2 h)
  unfold isPlainDouble
  rw [hany, decide_eq_false (hspecial (by decide)), decide_eq_false (hspecial (by decide))]
  rfl

/-- Characters that are neither digits nor signs are not in a numeral. -/
theorem notMem_sign_append {sign ds : List Char} {negative : Bool} (hsign : Sign sign negative)
    (hds : ∀ c ∈ ds, c.isDigit) {c : Char} (hc : ¬ c.isDigit) (hplus : c ≠ '+') (hminus : c ≠ '-') :
    c ∉ sign ++ ds := by
  have hds' : c ∉ ds := fun hmem => hc (hds c hmem)
  cases hsign with
  | none => exact hds'
  | plus => exact List.not_mem_cons_of_ne_of_not_mem hplus hds'
  | minus => exact List.not_mem_cons_of_ne_of_not_mem hminus hds'

/-- Digits do not mark a hexadecimal number, with a sign or without. -/
theorem not_mark_of_sign_append {sign ds : List Char} {negative : Bool}
    (hsign : Sign sign negative) (hds : ∀ c ∈ ds, c.isDigit) :
    ∀ c ∈ sign ++ ds, ¬ (c = 'x' ∨ c = 'X') := by
  rintro c hc (rfl | rfl)
  · exact notMem_sign_append hsign hds (by decide) (by decide) (by decide) hc
  · exact notMem_sign_append hsign hds (by decide) (by decide) (by decide) hc

/-- An integer without a suffix is an int. -/
theorem numberLiteral?_digits {sign ds : List Char} {negative : Bool} (hsign : Sign sign negative)
    (hne : ds ≠ []) (hds : ∀ c ∈ ds, c.isDigit) :
    numberLiteral? (sign ++ ds) = intLiteral? (sign ++ ds) := by
  have hnot {c : Char} (hc : ¬ c.isDigit) (hplus : c ≠ '+') (hminus : c ≠ '-') :
      c ∉ sign ++ ds := notMem_sign_append hsign hds hc hplus hminus
  have hmark := not_mark_of_sign_append hsign hds
  obtain ⟨d, cs, rfl⟩ := List.exists_cons_of_ne_nil hne
  have hsplit := splitSign_append hsign (hds d (List.mem_cons_self ..)) cs
  rw [numberLiteral?_eq hmark, stripSuffix?_of_notMem, stripSuffix?_of_notMem,
    stripSuffix?_of_notMem, hsplit]
  · dsimp only
    rw [isPlainDouble_of_digits hds]
    rfl
  all_goals exact hnot (by decide) (by decide) (by decide)

/-- The decimal text of an int is read as the int. -/
theorem intLiteral?_toInt (n : Int32) : intLiteral? (ofInt n.toInt) = some (.int n) := by
  rw [intLiteral?, readInt?_ofInt, Option.bind_some,
    if_pos ⟨n.minValue_le_toInt, n.toInt_le⟩, Int32.ofInt_toInt]

theorem longLiteral?_toInt (n : Int64) : longLiteral? (ofInt n.toInt) = some (.long n) := by
  rw [longLiteral?, readInt?_ofInt, Option.bind_some,
    if_pos ⟨n.minValue_le_toInt, n.toInt_le⟩, Int64.ofInt_toInt]

/-- The word of a number: how it begins, what it is made of and what it is read as. -/
structure IsNumber (word : String) (l : Literal) : Prop where
  isNumberChar : ∀ c ∈ word.toList, isNumberChar c
  looksNumeric : looksNumeric word.toList
  literal : numberLiteral? word.toList = some l

namespace IsNumber

variable {word : String} {l : Literal}

/-- A word for a number is read as that number. -/
theorem readNumber (h : IsNumber word l) : readNumber word = .ok l := by
  rw [Assembly.readNumber, if_pos h.looksNumeric, h.literal]

theorem isWord (h : IsNumber word l) : IsWord word := by
  have hne : word.toList ≠ [] := by
    intro he
    have hlooks := h.looksNumeric
    rw [he] at hlooks
    cases hlooks
  rw [← String.ofList_toList (s := word)]
  exact isWord_of_isNumberChar hne h.isNumberChar

/-- What has a sign, a first character as numbers have it and a suffix is a number. -/
theorem of_minus {negative : Bool} {c : Char} {cs : List Char}
    (hc : c.isDigit ∨ c = 'N' ∨ c = 'I') (hcs : ∀ d ∈ c :: cs, Numeral.isNumberChar d)
    (hl : numberLiteral? (minus negative ++ c :: cs) = some l) :
    IsNumber (String.ofList (minus negative ++ c :: cs)) l := by
  constructor <;> rw [String.toList_ofList]
  · intro d hd
    rcases List.mem_append.1 hd with hd | hd
    · exact isNumberChar_of_mem_minus hd
    · exact hcs d hd
  · exact looksNumeric_sign (sign_minus negative) hc cs
  · exact hl

end IsNumber

/-- The text of an int is a word for it. -/
theorem isNumber_int (n : Int32) : IsNumber (Literal.text (.int n)) (.int n) := by
  obtain ⟨d, ds, hd, hdigit, hds⟩ := exists_ofNat_eq_cons n.toInt.natAbs
  have hdigits : ∀ c ∈ d :: ds, c.isDigit := List.forall_mem_cons.2 ⟨hdigit, hds⟩
  have hl := intLiteral?_toInt n
  change IsNumber (String.ofList (ofInt n.toInt)) _
  rw [ofInt_eq, hd] at hl ⊢
  rw [← numberLiteral?_digits (sign_minus _) (List.cons_ne_nil _ _) hdigits] at hl
  exact .of_minus (.inl hdigit) (fun c hc => isNumberChar_of_isDigit (hdigits c hc)) hl

theorem isNumber_long (n : Int64) : IsNumber (Literal.text (.long n)) (.long n) := by
  obtain ⟨d, ds, hd, hdigit, hds⟩ := exists_ofNat_eq_cons n.toInt.natAbs
  have hmark : ∀ c ∈ ofInt n.toInt, ¬ (c = 'x' ∨ c = 'X') :=
    fun c hc => not_mark_of_isNumberChar (isNumberChar_of_mem_ofInt hc)
  have hl := (numberLiteral?_long hmark (.inl rfl)).trans (longLiteral?_toInt n)
  change IsNumber (String.ofList (ofInt n.toInt ++ ['L'])) _
  rw [ofInt_eq, hd, List.append_assoc] at hl ⊢
  have hchars : ∀ c ∈ d :: ds, isNumberChar c := by
    intro c hc
    exact isNumberChar_of_isDigit (isDigit_of_mem_ofNat (hd ▸ hc))
  exact .of_minus (.inl hdigit) (forall_mem_concat (c := 'L') hchars (by decide)) hl

/-- The text of a binary number with a suffix is a number. -/
theorem isNumber_chars (hf : 2 ≤ f.exponentBits) (x : Binary f) (suffix : Char)
    {literal : Binary f → Literal} (hsuffix : isNumberChar suffix)
    (h : ∀ cs, (∀ c ∈ cs, isNumberChar c) →
      numberLiteral? (cs ++ [suffix]) = (readBinary? cs).map literal) :
    IsNumber (String.ofList (x.chars ++ [suffix])) (literal x.canonical) := by
  obtain ⟨negative, c, cs, htext, hc, hcs⟩ := x.exists_chars
  have hchars : ∀ d ∈ x.chars, isNumberChar d := by
    rw [htext]
    intro d hd
    rcases List.mem_append.1 hd with hd | hd
    · exact isNumberChar_of_mem_minus hd
    · exact hcs d hd
  have hl := h x.chars hchars
  rw [readBinary?_chars hf, Option.map_some] at hl
  rw [htext, List.append_assoc] at hl ⊢
  exact .of_minus hc (forall_mem_concat hcs hsuffix) hl

/-- The text of a float is a word for it, or for the NaN if it is one. -/
theorem isNumber_float (x : Single) : IsNumber (Literal.text (.float x)) (.float x.canonical) :=
  isNumber_chars (by decide) x 'f' (by decide) fun _ => numberLiteral?_float

/-- The text of a double is a word for it, or for the NaN if it is one. -/
theorem isNumber_double (x : Double) : IsNumber (Literal.text (.double x)) (.double x.canonical) :=
  isNumber_chars (by decide) x 'd' (by decide) fun _ => numberLiteral?_double

end Assembly

end StackMachine
