import StackMachine.Proofs.Integers

/-!
# Reading hexadecimal digits

Hexadecimal digits stand in two places: behind the mark of a number word, and between the braces
of an escape in a quoted text. They are read in the same way in both, one or more of them with
nothing else among them, and a plus sign in front of them is passed over. What is read as a quoted
text is told by the ways in which a character may be spelled there.
-/

namespace StackMachine

namespace Numeral

variable {n d : Nat} {c : Char} {cs ds : List Char}

/-- What is read as hexadecimal digits, and the number that they denote. A plus sign may stand in
front of them. -/
inductive HexDigits : List Char → Nat → Prop where
  | intro {sign ds : List Char} {n : Nat} (hsign : Sign sign false) (hds : Denotes 16 ds n) :
      HexDigits (sign ++ ds) n

/-- What is read as the value of a digit is a digit with that value. -/
theorem isDigit_of_hexDigit? (h : hexDigit? c = some d) : IsDigit 16 c d := by
  have hlt : c.toNat < 128 := by
    by_contra hge
    have hhigh {b : Char} (hb : b.toNat < 128) : ¬ c ≤ b :=
      fun hle => hge (Nat.lt_of_le_of_lt hle hb)
    have hdigit : ¬ c.isDigit := fun hdigit =>
      hhigh (b := '9') (by decide) (of_decide_eq_true (Bool.and_eq_true_iff.1 hdigit).2)
    rw [hexDigit?, if_neg hdigit, if_neg fun h => hhigh (by decide) h.2,
      if_neg fun h => hhigh (by decide) h.2] at h
    cases h
  have hall : ∀ m < 128, ∀ d ∈ hexDigit? (Char.ofNat m), IsDigit 16 (Char.ofNat m) d := by decide
  have hc := hall c.toNat hlt d
  rw [Char.ofNat_toNat] at hc
  exact hc h

/-- Characters that are all read as values are all digits. -/
theorem exists_of_mapM {vs : List Nat} (h : ds.mapM hexDigit? = some vs) :
    ∀ c ∈ ds, ∃ d, IsDigit 16 c d := by
  induction ds generalizing vs with
  | nil => exact fun c hc => absurd hc List.not_mem_nil
  | cons c ds ih =>
    simp only [List.mapM_cons, Option.bind_eq_bind, Option.bind_eq_some_iff] at h
    obtain ⟨d, hd, ws, hws, -⟩ := h
    exact List.forall_mem_cons.2 ⟨⟨d, isDigit_of_hexDigit? hd⟩, ih hws⟩

/-- Digits that are read denote what they are read as. -/
theorem readHexDigits?_eq_some_iff : readHexDigits? ds = some n ↔ Denotes 16 ds n := by
  refine ⟨fun h => ?_, readHexDigits?_of_denotes⟩
  have hne : ds ≠ [] := by
    rintro rfl
    cases h
  have hdigits : ∀ c ∈ ds, ∃ d, IsDigit 16 c d := by
    rw [readHexDigits?, if_neg hne] at h
    obtain ⟨vs, hvs, -⟩ := Option.map_eq_some_iff.1 h
    exact exists_of_mapM hvs
  obtain ⟨m, hm⟩ := exists_denotes hne hdigits
  obtain rfl : n = m := Option.some.inj (h.symm.trans (readHexDigits?_of_denotes hm))
  exact hm

/-- A hexadecimal number is read exactly if there are digits, possibly behind a plus. -/
theorem readHex?_eq_some_iff : readHex? cs = some n ↔ HexDigits cs n := by
  constructor
  · intro h
    unfold readHex? at h
    split at h
    · exact .intro .plus (readHexDigits?_eq_some_iff.1 h)
    · exact .intro .none (readHexDigits?_eq_some_iff.1 h)
  · rintro ⟨hsign, hds⟩
    cases hsign with
    | plus => exact readHexDigits?_of_denotes hds
    | none => exact readHex?_of_denotes hds

/-- Without a plus sign there is nothing but digits. -/
theorem hexDigits_iff_of_notMem (h : '+' ∉ cs) : HexDigits cs n ↔ Denotes 16 cs n := by
  refine ⟨fun hcs => ?_, fun hcs => .intro .none hcs⟩
  obtain ⟨hsign, hds⟩ := hcs
  cases hsign with
  | none => exact hds
  | plus => exact absurd (List.mem_cons_self ..) h

/-- Every other character is missing from it. -/
theorem HexDigits.notMem (h : HexDigits cs n) (hc : hexDigit? c = none) (hplus : c ≠ '+') :
    c ∉ cs := by
  obtain ⟨hsign, hds⟩ := h
  have hmem := hds.notMem hc
  cases hsign with
  | none => exact hmem
  | plus => exact List.not_mem_cons_of_ne_of_not_mem hplus hmem

end Numeral

namespace Assembly

open Numeral
open Token (Layout)

variable {n : Nat} {negative : Bool} {cs rest sign : List Char} {l : Literal} {w : String}

/-- What is read behind the mark of hexadecimal numbers: an int, or a long if a suffix says so,
whose bits are written, or their opposite behind a minus sign. -/
inductive HexLiteral (negative : Bool) : List Char → Literal → Prop where
  | int {ds : List Char} {n : Nat} (h : HexDigits ds n) (hfits : n < UInt32.size) :
      HexLiteral negative ds (.int (.ofInt (signed negative n)))
  | long {ds : List Char} {n : Nat} {suffix : Char} (h : HexDigits ds n)
      (hfits : n < UInt64.size) (hsuffix : suffix = 'L' ∨ suffix = 'l') :
      HexLiteral negative (ds ++ [suffix]) (.long (.ofInt (signed negative n)))

/-- The bits of an int are those of the signed number. -/
theorem bits_int (negative : Bool) (n : Nat) :
    (if negative then -Int32.ofNat n else Int32.ofNat n) = Int32.ofInt (signed negative n) := by
  cases negative with
  | false => exact Int32.ofInt_eq_ofNat.symm
  | true => exact (congrArg Neg.neg Int32.ofInt_eq_ofNat.symm).trans (Int32.ofInt_neg n).symm

theorem bits_long (negative : Bool) (n : Nat) :
    (if negative then -Int64.ofNat n else Int64.ofNat n) = Int64.ofInt (signed negative n) := by
  cases negative with
  | false => exact Int64.ofInt_eq_ofNat.symm
  | true => exact (congrArg Neg.neg Int64.ofInt_eq_ofNat.symm).trans (Int64.ofInt_neg n).symm

/-- What comes behind the mark is read exactly if it is hexadecimal and fits the width. -/
theorem hexLiteral?_eq_some_iff : hexLiteral? negative cs = some l ↔ HexLiteral negative cs l := by
  constructor
  · intro h
    unfold hexLiteral? at h
    split at h
    · rename_i ds hstrip
      obtain ⟨suffix, hsuffix, rfl⟩ := stripSuffix?_eq_some_iff.1 hstrip
      obtain ⟨n, hn, h⟩ := Option.bind_eq_some_iff.1 h
      split at h <;> cases h
      rename_i hfits
      rw [bits_long]
      exact .long (readHex?_eq_some_iff.1 hn) hfits hsuffix
    · obtain ⟨n, hn, h⟩ := Option.bind_eq_some_iff.1 h
      split at h <;> cases h
      rename_i hfits
      rw [bits_int]
      exact .int (readHex?_eq_some_iff.1 hn) hfits
  · intro h
    unfold hexLiteral?
    cases h with
    | int h hfits =>
      rw [stripSuffix?_of_notMem (h.notMem (by decide) (by decide))
        (h.notMem (by decide) (by decide))]
      dsimp only
      rw [readHex?_eq_some_iff.2 h, Option.bind_some, if_pos hfits, bits_int]
    | long h hfits hsuffix =>
      rw [stripSuffix?_eq_some_iff.2 ⟨_, hsuffix, rfl⟩]
      dsimp only
      rw [readHex?_eq_some_iff.2 h, Option.bind_some, if_pos hfits, bits_long]

/-- A word of hexadecimal digits is read as what they denote, alone and behind the opcodes that load
constants, or it is refused in both places. -/
structure HexWordExact (w : String) (negative : Bool) (cs : List Char) : Prop where
  value : ∀ text : String, Layout [.word w] text.toList → ∀ l,
    (readValue text = .ok l ↔ HexLiteral negative cs l)
  operand : ∀ (op : Opcode) (wide : Bool) (line : List Char), op.TakesConstant wide →
    Layout [.word op.mnemonic, .word w] line → ∀ s,
      (Statement.ofLine line = .ok s ↔
        ∃ l, HexLiteral negative cs l ∧ l.kind.isWide = wide ∧ s = some ⟨op, .constant l⟩)
  refused : (∀ l, ¬ HexLiteral negative cs l) → Refused w (.invalidNumber w)

/-- A word that is marked as hexadecimal is read exactly. -/
theorem hexWordExact (hw : IsWord w) (hsign : Sign sign negative) {mark : Char}
    (hmark : mark = 'x' ∨ mark = 'X') (h : w.toList = sign ++ '0' :: mark :: cs) :
    HexWordExact w negative cs := by
  have hlooks : looksNumeric w.toList := h ▸ looksNumeric_sign hsign (.inl rfl) (mark :: cs)
  have hliteral : numberLiteral? w.toList = hexLiteral? negative cs :=
    (congrArg numberLiteral? h).trans (numberLiteral?_hex hsign hmark cs)
  have hreads (l : Literal) : WordReads w l ↔ HexLiteral negative cs l := by
    rw [← readWord_eq_ok_iff, readWord_of_looksNumeric hlooks, readNumber_eq_ok_iff, hliteral,
      hexLiteral?_eq_some_iff, and_iff_right hlooks]
  refine ⟨fun text htext l => (readValue_eq_ok_iff htext hw).trans (hreads l), ?_, fun hnone => ?_⟩
  · intro op wide line hop hline s
    simp only [ofLine_eq_ok_iff hop hline hw, hreads]
  · have hnot : hexLiteral? negative cs = none :=
      Option.eq_none_iff_forall_ne_some.2 fun l hl => hnone l (hexLiteral?_eq_some_iff.1 hl)
    refine refused_of_readWord hw ?_
    rw [readWord_of_looksNumeric hlooks, readNumber, if_pos hlooks, hliteral, hnot]

end Assembly

namespace Text.Quoted

open Numeral

variable {c : Char} {s hex body rest cs : List Char}

/-- The digits between the braces of a hexadecimal escape denote a character. -/
def HexScalar (hex : List Char) (c : Char) : Prop :=
  ∃ n, HexDigits hex n ∧ n.isValidChar ∧ c = Char.ofNat n

/-- A hexadecimal escape with any text between its braces. -/
def hexEscape (hex : List Char) : List Char := '\\' :: 'u' :: '\x7b' :: (hex ++ ['\x7d'])

/-- What is read between quotes as a character: any way in which it may be written, an escaped
apostrophe, and any digits that denote it. -/
inductive ReadsChar : Char → List Char → Prop where
  | spelled {c : Char} {cs : List Char} (h : Spells c cs) : ReadsChar c cs
  | apostrophe : ReadsChar '\x27' ['\\', '\x27']
  | scalar {c : Char} {hex : List Char} (h : HexScalar hex c) : ReadsChar c (hexEscape hex)

/-- What is read between quotes as a text. -/
inductive ReadsText : List Char → List Char → Prop where
  | nil : ReadsText [] []
  | cons {c : Char} {s piece body : List Char} (hc : ReadsChar c piece) (hs : ReadsText s body) :
      ReadsText (c :: s) (piece ++ body)

/-- An escape gives a character exactly if its digits are the code of one. -/
theorem scalar?_eq_some_iff : scalar? hex = some c ↔ HexScalar hex c := by
  constructor
  · intro h
    unfold scalar? at h
    split at h
    · rename_i n hn
      split at h <;> cases h
      rename_i hvalid
      exact ⟨n, readHex?_eq_some_iff.1 hn, hvalid, rfl⟩
    · cases h
  · rintro ⟨n, hn, hvalid, rfl⟩
    rw [scalar?, readHex?_eq_some_iff.2 hn]
    exact if_pos hvalid

/-- What stands between the braces of an escape is judged as a whole. -/
theorem readScalar_of_close (hclose : '\x7d' ∉ hex) (rest : List Char) :
    readScalar ('\x7b' :: (hex ++ '\x7d' :: rest)) = match scalar? hex with
      | some c => .ok (c, rest)
      | none => .error (.badEscape (hexEscape hex)) := by
  have hall : ∀ d ∈ hex, (d ≠ '\x7d' : Bool) := by
    intro d hd
    have hne : d ≠ '\x7d' := fun he => hclose (he ▸ hd)
    simpa using hne
  rw [readScalar]
  simp only [List.takeWhile_append_of_pos hall, List.dropWhile_append_of_pos hall]
  rw [List.takeWhile_cons_of_neg (by simp), List.dropWhile_cons_of_neg (by simp), List.append_nil]
  rfl

/-- There is no closing brace among the digits of an escape. -/
theorem HexScalar.notMem (h : HexScalar hex c) : '\x7d' ∉ hex := by
  obtain ⟨n, hn, -⟩ := h
  exact hn.notMem (by decide) (by decide)

/-- A character is read back, whichever way it is spelled. -/
theorem read_of_readsChar {piece : List Char} (h : ReadsChar c piece) (cs : List Char) :
    read (piece ++ cs) = (read cs).map fun r => (c :: r.1, r.2) := by
  cases h with
  | spelled h => exact read_of_spells h cs
  | apostrophe => exact read_of_readEscape rfl
  | @scalar _ hex h =>
    have happend : hexEscape hex ++ cs = '\\' :: 'u' :: '\x7b' :: (hex ++ '\x7d' :: cs) := by
      simp [hexEscape]
    have hread : readEscape ('u' :: '\x7b' :: (hex ++ '\x7d' :: cs)) = .ok (c, cs) := by
      rw [readEscape, readScalar_of_close h.notMem, scalar?_eq_some_iff.2 h]
    rw [happend]
    exact read_of_readEscape hread

/-- A text is read up to anything that follows it. -/
theorem read_of_readsText (h : ReadsText s body) (cs : List Char) :
    read (body ++ cs) = (read cs).map fun r => (s ++ r.1, r.2) := by
  induction h with
  | nil => cases hread : read cs <;> simp [Except.map, hread]
  | cons hc _ ih =>
    rw [List.append_assoc, read_of_readsChar hc, ih]
    cases read cs <;> rfl

/-- What is read behind a backslash is one of the ways in which the character may be spelled. -/
theorem readsChar_of_readEscape (h : readEscape cs = .ok (c, rest)) :
    ∃ piece, ReadsChar c piece ∧ '\\' :: cs = piece ++ rest := by
  unfold readEscape at h
  split at h
  case h_9 cs =>
    unfold readScalar at h
    split at h
    · rename_i cs
      dsimp only at h
      split at h
      · cases h
      · rename_i d after hd
        split at h <;> cases h
        rename_i hscalar
        have hbrace := List.head?_dropWhile_not (· ≠ '\x7d') cs
        rw [hd] at hbrace
        obtain rfl : d = '\x7d' := by simpa using hbrace
        refine ⟨_, .scalar (scalar?_eq_some_iff.1 hscalar), ?_⟩
        have hcs := List.takeWhile_append_dropWhile (p := (· ≠ '\x7d')) (l := cs)
        rw [hd] at hcs
        rw [hexEscape, List.cons_append, List.cons_append, List.cons_append, List.append_assoc]
        exact congrArg ('\\' :: 'u' :: '\x7b' :: ·) hcs.symm
    · cases h
  all_goals cases h
  · exact ⟨_, .spelled .lineFeed, rfl⟩
  · exact ⟨_, .spelled .tab, rfl⟩
  · exact ⟨_, .spelled .carriageReturn, rfl⟩
  · exact ⟨_, .spelled .null, rfl⟩
  · exact ⟨_, .spelled .backslash, rfl⟩
  · exact ⟨_, .spelled .quote, rfl⟩
  · exact ⟨_, .apostrophe, rfl⟩

/-- The texts that are read are those whose characters are spelled in the ways that there are, up to
the quote that closes them. -/
theorem read_eq_ok_iff :
    read cs = .ok (s, rest) ↔ ∃ body, ReadsText s body ∧ cs = body ++ '"' :: rest := by
  constructor
  · intro h
    fun_induction read cs generalizing s rest with
    | case1 => cases h
    | case2 =>
      cases h
      exact ⟨[], .nil, rfl⟩
    | case3 => cases h
    | case4 cs c after he ih =>
      obtain ⟨⟨t, u⟩, hread, h⟩ := exists_of_bind_ok h
      cases h
      obtain ⟨body, hbody, rfl⟩ := ih hread
      obtain ⟨piece, hpiece, happend⟩ := readsChar_of_readEscape he
      exact ⟨piece ++ body, .cons hpiece hbody, happend.trans (List.append_assoc ..).symm⟩
    | case5 c cs hquote hslash ih =>
      obtain ⟨⟨t, u⟩, hread, h⟩ := exists_of_bind_ok h
      cases h
      obtain ⟨body, hbody, rfl⟩ := ih hread
      have hchar : ReadsChar c [c] := .spelled (.itself hquote hslash)
      exact ⟨c :: body, .cons hchar hbody, rfl⟩
  · rintro ⟨body, hbody, rfl⟩
    rw [read_of_readsText hbody, read]
    simp [Except.map]

/-- An escape whose digits denote no character is refused, and shown as it stands. -/
theorem read_of_not_hexScalar (hbody : ReadsText s body) (hclose : '\x7d' ∉ hex)
    (hnone : ∀ c, ¬ HexScalar hex c) (rest : List Char) :
    read (body ++ (hexEscape hex ++ rest)) = .error (.badEscape (hexEscape hex)) := by
  have happend : hexEscape hex ++ rest = '\\' :: 'u' :: '\x7b' :: (hex ++ '\x7d' :: rest) := by
    simp [hexEscape]
  have hscalar : scalar? hex = none :=
    Option.eq_none_iff_forall_ne_some.2 fun c hc => hnone c (scalar?_eq_some_iff.1 hc)
  have hescape : readEscape ('u' :: '\x7b' :: (hex ++ '\x7d' :: rest)) =
      .error (.badEscape (hexEscape hex)) := by
    rw [readEscape, readScalar_of_close hclose, hscalar]
  rw [read_of_readsText hbody, happend, read]
  split
  · rename_i he
    rw [hescape] at he
    cases he
    rfl
  · rename_i he
    rw [hescape] at he
    cases he

end Text.Quoted

namespace Assembly

open Numeral
open Text.Quoted (ReadsText HexScalar hexEscape)
open Token (Layout)

namespace Token

variable {ts : List Token} {leading row gap rest : List Char}

/-- Behind a quote the text of a string is read, and the tokens come after it. -/
theorem scan_quote (rest : List Char) : scan ('"' :: rest) = match Text.Quoted.read rest with
    | .error e => .error (quotedProblem e)
    | .ok (s, after) => (scan after).map (quoted (String.ofList s) :: ·) := by
  rw [scan, if_neg (by decide), if_neg (by decide), if_pos rfl]
  split <;> rename_i hread <;> rw [hread]
  dsimp only
  cases scan _ <;> rfl

/-- What is found behind tokens is found behind them on a line. A word is over where a quote
begins. -/
theorem scan_row_quote (hleading : ∀ c ∈ leading, Text.isBlank c) (hrow : Row ts row)
    (hts : ∀ t ∈ ts, t.IsPlain) (hgap : ∀ c ∈ gap, Text.isBlank c) (rest : List Char) :
    scan (leading ++ (row ++ (gap ++ '"' :: rest))) = (scan ('"' :: rest)).map (ts ++ ·) := by
  have hapart : ∀ t ∈ ts.getLast?, t.Apart (gap ++ '"' :: rest) := by
    intro t _ s _ c hc
    cases gap with
    | nil =>
      obtain rfl : '"' = c := Option.some.inj hc
      decide
    | cons d gap =>
      obtain rfl : d = c := Option.some.inj hc
      simp [isWordChar, hgap d (List.mem_cons_self ..)]
  rw [scan_blanks hleading, scan_row hrow hts hapart, scan_blanks hgap]

end Token

/-- A hexadecimal escape is refused wherever it stands on a line: behind any tokens, in a quoted
text that is read up to there, and with anything behind it. -/
def EscapeRefused (hex : List Char) : Prop :=
  ∀ (ts : List Token) (leading row gap s body rest : List Char),
    (∀ c ∈ leading, Text.isBlank c) → Token.Row ts row → (∀ t ∈ ts, t.IsPlain) →
    (∀ c ∈ gap, Text.isBlank c) → ReadsText s body →
    let line := leading ++ (row ++ (gap ++ '"' :: (body ++ (hexEscape hex ++ rest))))
    let problem := Problem.invalidLiteral (String.ofList (hexEscape hex))
    Statement.ofLine line = .error problem ∧ readValue (String.ofList line) = .error ⟨1, problem⟩

/-- An escape whose digits are no code of a character is refused. -/
theorem escapeRefused {hex : List Char} (hclose : '\x7d' ∉ hex) (hnone : ∀ c, ¬ HexScalar hex c) :
    EscapeRefused hex := by
  intro ts leading row gap s body rest hleading hrow hts hgap hbody line problem
  have hscan : Token.scan line = .error problem := by
    rw [Token.scan_row_quote hleading hrow hts hgap, Token.scan_quote,
      Text.Quoted.read_of_not_hexScalar hbody hclose hnone]
    rfl
  constructor
  · rw [Statement.ofLine, hscan]
    rfl
  · rw [readValue, String.toList_ofList, hscan]
    rfl

/-- A quoted text on its own is read as a string if its escapes are as they should be. -/
theorem readValue_of_readsText {s body leading trailing : List Char} (hbody : ReadsText s body)
    (hleading : ∀ c ∈ leading, Text.isBlank c) (htrailing : ∀ c ∈ trailing, Text.isBlank c) :
    readValue (String.ofList (leading ++ '"' :: (body ++ '"' :: trailing))) =
      .ok (.string (String.ofList s)) := by
  have hend : Token.scan trailing = .ok [] := by
    have hblanks := Token.scan_blanks htrailing []
    rw [List.append_nil] at hblanks
    rw [hblanks, Token.scan]
  have hscan : Token.scan (leading ++ '"' :: (body ++ '"' :: trailing)) =
      .ok [.quoted (String.ofList s)] := by
    rw [Token.scan_blanks hleading, Token.scan_quote,
      Text.Quoted.read_eq_ok_iff.2 ⟨body, hbody, rfl⟩]
    dsimp only
    rw [hend]
    rfl
  rw [readValue, String.toList_ofList, hscan]
  rfl

/-- Hexadecimal digits are read exactly, and nothing else is read in their place, except that one
plus sign may stand in front of them. In a word, which may begin with a sign of its own, this makes
an int or a long with those bits, if they are not too many; between the braces of an escape it makes
the character with that scalar value, if there is one. Everything else is refused. If there is no
plus sign, nothing but hexadecimal digits is read. -/
theorem hexadecimal_read_exactly (w : String) (text : List Char) :
    (∀ (sign cs : List Char) (negative : Bool) (mark : Char), IsWord w → Sign sign negative →
        mark = 'x' ∨ mark = 'X' → w.toList = sign ++ '0' :: mark :: cs →
          HexWordExact w negative cs) ∧
      (∀ s rest : List Char, Text.Quoted.read text = .ok (s, rest) ↔
        ∃ body, ReadsText s body ∧ text = body ++ '"' :: rest) ∧
      (∀ s leading trailing : List Char, ReadsText s text →
        (∀ c ∈ leading, Text.isBlank c) → (∀ c ∈ trailing, Text.isBlank c) →
          readValue (String.ofList (leading ++ '"' :: (text ++ '"' :: trailing))) =
            .ok (.string (String.ofList s))) ∧
      ('\x7d' ∉ text → (∀ c, ¬ HexScalar text c) → EscapeRefused text) ∧
      ('+' ∉ text → ∀ n, HexDigits text n ↔ Denotes 16 text n) :=
  ⟨fun _ _ _ _ hw hsign hmark h => hexWordExact hw hsign hmark h,
    fun _ _ => Text.Quoted.read_eq_ok_iff,
    fun _ _ _ hbody hleading htrailing => readValue_of_readsText hbody hleading htrailing,
    fun hclose hnone => escapeRefused hclose hnone,
    fun hplus _ => hexDigits_iff_of_notMem hplus⟩

/-- A negative long with a plus sign among its digits, and digits past the last scalar value. -/
theorem hexadecimal_read_exactly_signs :
    readValue "-0x+1fL" = .ok (.long (-31)) ∧
      Statement.ofLine "ldc \"a\\u\x7b110000\x7d\"".toList =
        .error (.invalidLiteral "\\u\x7b110000\x7d") := by
  have hnone : ∀ c ∈ [], Text.isBlank c := List.forall_mem_nil _
  have hblank : ∀ c ∈ [' '], Text.isBlank c := List.forall_mem_singleton.2 (by decide)
  have hdigits : HexDigits "+1f".toList 31 :=
    .intro .plus (.more (n := 1) (d := 15) (.digit (by decide)) (by decide))
  have hvalue : Layout [.word "-0x+1fL"] "-0x+1fL".toList :=
    .intro hnone (.singleton (.word _)) hnone .nothing (.inl rfl)
  have hrow : Token.Row [.word "ldc"] "ldc".toList := .singleton (.word _)
  have hplain : ∀ t ∈ [Token.word "ldc"], t.IsPlain :=
    List.forall_mem_singleton.2 (by decide : IsWord "ldc")
  have hchar : Text.Quoted.ReadsChar 'a' ['a'] := .spelled (.itself (by decide) (by decide))
  have hbody : ReadsText ['a'] ['a'] := .cons hchar .nil
  have hscalar : ∀ c, ¬ HexScalar "110000".toList c := fun c hc => by
    cases Text.Quoted.scalar?_eq_some_iff.2 hc
  obtain ⟨hword, -, -, hescape, -⟩ := hexadecimal_read_exactly "-0x+1fL" "110000".toList
  have hexact := hword ['-'] "+1fL".toList true 'x' (by decide) .minus (.inl rfl) rfl
  refine ⟨?_, ?_⟩
  · exact (hexact.value _ hvalue _).2 (.long hdigits (by decide) (.inl rfl))
  · exact (hescape (by decide) hscalar _ _ _ _ _ _ ['"'] hnone hrow hplain hblank hbody).1

/-- Not only hexadecimal digits are read as such: a plus sign is read in front of them. -/
theorem not_forall_denotes_hexadecimal :
    (¬ ∀ (w : String) (sign cs : List Char) (negative : Bool) (mark : Char) (l : Literal),
      IsWord w → Sign sign negative → mark = 'x' ∨ mark = 'X' →
        w.toList = sign ++ '0' :: mark :: cs → readValue w = .ok l →
          ∃ ds n, Denotes 16 ds n ∧ (cs = ds ∨ cs = ds ++ ['L'] ∨ cs = ds ++ ['l'])) ∧
      ¬ ∀ hex s rest after : List Char, '\x7d' ∉ hex →
        Text.Quoted.read (hexEscape hex ++ rest) = .ok (s, after) →
          ∃ n, Denotes 16 hex n ∧ n.isValidChar := by
  have hnone : ∀ c ∈ [], Text.isBlank c := List.forall_mem_nil _
  have hplus {ds : List Char} {n : Nat} (h : Denotes 16 ds n) : '+' ∉ ds := h.notMem (by decide)
  constructor
  · intro hall
    have hdigits : HexDigits "+1f".toList 31 :=
      .intro .plus (.more (n := 1) (d := 15) (.digit (by decide)) (by decide))
    have hvalue : Layout [.word "0x+1f"] "0x+1f".toList :=
      .intro hnone (.singleton (.word _)) hnone .nothing (.inl rfl)
    have hmark : 'x' = 'x' ∨ 'x' = 'X' := .inl rfl
    have hexact : HexWordExact "0x+1f" false "+1f".toList :=
      hexWordExact (by decide) .none hmark rfl
    have hread := (hexact.value _ hvalue _).2 (.int hdigits (by decide))
    obtain ⟨ds, n, hds, hcs⟩ :=
      hall "0x+1f" [] "+1f".toList false 'x' _ (by decide) .none (.inl rfl) rfl hread
    have hmem : '+' ∈ "+1f".toList := List.mem_cons_self ..
    refine hplus hds ?_
    rcases hcs with hcs | hcs | hcs <;> rw [hcs] at hmem
    · exact hmem
    · simpa using hmem
    · simpa using hmem
  · intro hall
    have hscalar : HexScalar "+41".toList 'A' :=
      ⟨65, .intro .plus (.more (n := 4) (d := 1) (.digit (by decide)) (by decide)), by decide, rfl⟩
    have hread := Text.Quoted.read_of_readsChar (.scalar hscalar) ['"']
    rw [Text.Quoted.read] at hread
    obtain ⟨n, hn, -⟩ := hall "+41".toList _ ['"'] _ (by decide) hread
    exact hplus hn (List.mem_cons_self ..)

end Assembly

end StackMachine
