import StackMachine.Assembly.Token
import StackMachine.Proofs.Words
import StackMachine.Text.Lines

/-!
# Reading back lines, quoted texts and tokens

What is written on lines is found on them, a quoted text is read back whatever is in it and
however it is escaped, and tokens with blanks between any two are told apart again. A word can
be told apart when it has no blanks and no quotes in it and does not begin like a comment.
-/

namespace StackMachine

namespace Text

/-- A line that is ended is the first one of a text. -/
theorem lines_of_line {line : List Char} (h : '\n' ∉ line) (rest : List Char) :
    lines (line ++ '\n' :: rest) = dropReturn line :: lines rest := by
  have hall : ∀ c ∈ line, (c ≠ '\n' : Bool) := by
    intro c hc
    have hne : c ≠ '\n' := fun he => h (he ▸ hc)
    simpa using hne
  have htake : (line ++ '\n' :: rest).takeWhile (· ≠ '\n') = line := by
    rw [List.takeWhile_append_of_pos hall, List.takeWhile_cons_of_neg (by simp), List.append_nil]
  have hdrop : (line ++ '\n' :: rest).dropWhile (· ≠ '\n') = '\n' :: rest := by
    rw [List.dropWhile_append_of_pos hall, List.dropWhile_cons_of_neg (by simp)]
  rw [lines]
  split
  · rename_i hd
    rw [hdrop] at hd
    cases hd
  · rename_i hd
    rw [hdrop] at hd
    cases hd
    rw [htake]

@[simp] theorem lines_nil : lines [] = [] := by
  rw [lines]
  rfl

/-- A text that ends with a line end does not mix with what follows it. -/
theorem lines_append (cs rest : List Char) :
    lines (cs ++ '\n' :: rest) = lines (cs ++ ['\n']) ++ lines rest := by
  by_cases h : '\n' ∈ cs
  · obtain ⟨line, after, rfl, hline⟩ := List.eq_append_cons_of_mem h
    rw [List.append_assoc, List.append_assoc, List.cons_append, List.cons_append,
      lines_of_line hline, lines_of_line hline, lines_append after rest]
    rfl
  · rw [lines_of_line h, lines_of_line h, lines_nil]
    rfl
termination_by cs.length
decreasing_by
  subst_vars
  simp only [List.length_append, List.length_cons]
  omega

/-- The character does not end a line, nor stand before its end. -/
def IsInline (c : Char) : Prop := c ≠ '\n' ∧ c ≠ '\r'

/-- There is no carriage return to drop from what stays on a line. -/
theorem dropReturn_of_isInline {line : List Char} (h : ∀ c ∈ line, IsInline c) :
    dropReturn line = line := by
  have hne : line.getLast? ≠ some '\r' := fun he => (h '\r' (List.mem_of_getLast? he)).2 rfl
  exact if_neg hne

/-- Texts that are written on one line each are found as lines. -/
theorem lines_join {texts : List String} (h : ∀ t ∈ texts, ∀ c ∈ t.toList, IsInline c) :
    lines (String.join (texts.map (· ++ "\n"))).toList = texts.map String.toList := by
  induction texts with
  | nil => exact lines_nil
  | cons t texts ih =>
    have ht := h t (List.mem_cons_self ..)
    have hjoin : (String.join ((t :: texts).map (· ++ "\n"))).toList =
        t.toList ++ '\n' :: (String.join (texts.map (· ++ "\n"))).toList := by
      simp
    rw [hjoin, lines_of_line fun hn => (ht _ hn).1 rfl, dropReturn_of_isInline ht,
      ih fun u hu => h u (List.mem_cons_of_mem _ hu), List.map_cons]

/-- A text on a line of its own is found as a line, whatever the texts around it are. -/
theorem mem_lines_join {texts : List String} {t : String} (ht : t ∈ texts)
    (h : ∀ c ∈ t.toList, IsInline c) :
    t.toList ∈ lines (String.join (texts.map (· ++ "\n"))).toList := by
  induction texts with
  | nil => cases ht
  | cons u texts ih =>
    have hjoin : (String.join ((u :: texts).map (· ++ "\n"))).toList =
        u.toList ++ '\n' :: (String.join (texts.map (· ++ "\n"))).toList := by
      simp
    rw [hjoin]
    rcases List.mem_cons.1 ht with rfl | ht
    · rw [lines_of_line fun hn => (h _ hn).1 rfl, dropReturn_of_isInline h]
      exact List.mem_cons_self ..
    · rw [lines_append]
      exact List.mem_append_right _ (ih ht)

end Text

namespace Text.Quoted

/-- The hexadecimal digits of a character give it back. -/
theorem scalar?_hexOfNat (c : Char) : scalar? (Numeral.hexOfNat c.toNat) = some c := by
  have hvalid : c.toNat.isValidChar := c.valid
  rw [scalar?, Numeral.readHex?_hexOfNat]
  dsimp only
  rw [if_pos hvalid, Char.ofNat_toNat]

/-- The hexadecimal escape of a character is read as the character. -/
theorem readScalar_hexOfNat (c : Char) (cs : List Char) :
    readScalar ('\x7b' :: (Numeral.hexOfNat c.toNat ++ '\x7d' :: cs)) = .ok (c, cs) := by
  have hall : ∀ d ∈ Numeral.hexOfNat c.toNat, (d ≠ '\x7d' : Bool) := by
    intro d hd
    have hne : d ≠ '\x7d' := fun he => Numeral.notMem_hexOfNat (by decide) (he ▸ hd)
    simpa using hne
  rw [readScalar]
  simp only [List.takeWhile_append_of_pos hall, List.dropWhile_append_of_pos hall]
  rw [List.takeWhile_cons_of_neg (by simp), List.dropWhile_cons_of_neg (by simp),
    List.append_nil, scalar?_hexOfNat]

/-- An escape is read as its character. -/
theorem read_of_readEscape {cs rest : List Char} {c : Char} (h : readEscape cs = .ok (c, rest)) :
    read ('\\' :: cs) = (read rest).map fun r => (c :: r.1, r.2) := by
  rw [read]
  split
  · rename_i he
    rw [h] at he
    cases he
  · rename_i he
    rw [h] at he
    cases he
    cases read rest <;> rfl

/-- How a character may be written between quotes: with a letter behind a backslash, in
hexadecimal, or, unless it is the quote or the backslash, as itself. -/
inductive Spells : Char → List Char → Prop where
  | quote : Spells '"' ['\\', '"']
  | backslash : Spells '\\' ['\\', '\\']
  | lineFeed : Spells '\n' ['\\', 'n']
  | carriageReturn : Spells '\r' ['\\', 'r']
  | tab : Spells '\t' ['\\', 't']
  | null : Spells '\x00' ['\\', '0']
  | hexadecimal (c : Char) :
      Spells c ('\\' :: 'u' :: '\x7b' :: (Numeral.hexOfNat c.toNat ++ ['\x7d']))
  | itself {c : Char} (hquote : c ≠ '"') (hslash : c ≠ '\\') : Spells c [c]

/-- How a text may be written between quotes: any of its characters in any way. -/
inductive SpellsText : List Char → List Char → Prop where
  | nil : SpellsText [] []
  | cons {c : Char} {s piece pieces : List Char} (hc : Spells c piece)
      (hs : SpellsText s pieces) : SpellsText (c :: s) (piece ++ pieces)

/-- A character is read back, whichever way it is written. -/
theorem read_of_spells {c : Char} {piece : List Char} (h : Spells c piece) (cs : List Char) :
    read (piece ++ cs) = (read cs).map fun r => (c :: r.1, r.2) := by
  cases h with
  | hexadecimal =>
    have happend : '\\' :: 'u' :: '\x7b' :: (Numeral.hexOfNat c.toNat ++ ['\x7d']) ++ cs =
        '\\' :: 'u' :: '\x7b' :: (Numeral.hexOfNat c.toNat ++ '\x7d' :: cs) := by simp
    rw [happend]
    exact read_of_readEscape (readScalar_hexOfNat c cs)
  | itself hquote hslash =>
    rw [List.cons_append, List.nil_append, read]
    · cases read cs <;> rfl
    · exact hquote
    · exact hslash
  | _ => exact read_of_readEscape rfl

/-- A text is read back, whichever way its characters are written. -/
theorem read_of_spellsText {s pieces : List Char} (h : SpellsText s pieces) (rest : List Char) :
    read (pieces ++ '"' :: rest) = .ok (s, rest) := by
  induction h with
  | nil => rw [List.nil_append, read]
  | cons hc _ ih =>
    rw [List.append_assoc, read_of_spells hc, ih]
    rfl

/-- Characters are escaped in one of the ways in which they may be written. -/
theorem spells_escape (c : Char) : Spells c (escape c) := by
  unfold escape
  split
  · rename_i hquote
    subst hquote
    exact .quote
  · rename_i hquote
    split
    · rename_i hslash
      subst hslash
      exact .backslash
    · rename_i hslash
      repeat' split
      case isTrue h =>
        subst h
        exact .lineFeed
      case isTrue h =>
        subst h
        exact .carriageReturn
      case isTrue h =>
        subst h
        exact .tab
      case isTrue h =>
        subst h
        exact .null
      · exact .hexadecimal c
      · exact .itself hquote hslash

/-- An escaped text is one of the spellings of the text. -/
theorem spellsText_escape (s : List Char) : SpellsText s (s.flatMap escape) := by
  induction s with
  | nil => exact .nil
  | cons c s ih => exact .cons (spells_escape c) ih

/-- A written character stays on its line. -/
theorem isInline_of_mem_escape {c d : Char} (h : d ∈ escape c) : IsInline d := by
  have hall {cs : List Char} (hcs : '\n' ∉ cs ∧ '\r' ∉ cs) (hd : d ∈ cs) : IsInline d :=
    ⟨fun he => hcs.1 (he ▸ hd), fun he => hcs.2 (he ▸ hd)⟩
  by_cases hfeed : c = '\n'
  · subst hfeed
    exact hall (by decide) h
  · by_cases hreturn : c = '\r'
    · subst hreturn
      exact hall (by decide) h
    · unfold escape at h
      rw [if_neg hfeed, if_neg hreturn] at h
      repeat' split at h
      case isTrue | isTrue | isTrue | isTrue => exact hall (by decide) h
      · rcases List.mem_append.1 h with h | h
        · rcases List.mem_append.1 h with h | h
          · exact hall (by decide) h
          · constructor <;> rintro rfl
            · exact Numeral.notMem_hexOfNat (by decide) h
            · exact Numeral.notMem_hexOfNat (by decide) h
        · exact hall (by decide) h
      · rw [List.mem_singleton.1 h]
        exact ⟨hfeed, hreturn⟩

end Text.Quoted

namespace Assembly

/-- A text can stand as a word: it is not empty, has no blank and no quote in it, and does
not begin a comment. -/
structure IsWord (s : String) : Prop where
  ne_empty : s ≠ ""
  isWordChar : ∀ c ∈ s.toList, Token.isWordChar c
  no_comment : s.toList.head? ≠ some ';'

instance (s : String) : Decidable (IsWord s) :=
  decidable_of_iff (s ≠ "" ∧ s.toList.all Token.isWordChar ∧ s.toList.head? ≠ some ';')
    ⟨fun ⟨h, h', h''⟩ => ⟨h, List.all_eq_true.1 h', h''⟩,
      fun ⟨h, h', h''⟩ => ⟨h, List.all_eq_true.2 h', h''⟩⟩

namespace Token

/-- The token can be told apart from others when it is written. -/
def IsPlain : Token → Prop
  | word s => IsWord s
  | quoted _ => True

/-- The characters of a word stay on a line. -/
theorem isInline_of_isWordChar {c : Char} (h : isWordChar c) : Text.IsInline c := by
  constructor <;> rintro rfl <;> cases h

/-- A token that can be told apart stays on its line. -/
theorem isInline_of_mem_text {t : Token} (h : t.IsPlain) {c : Char} (hc : c ∈ t.text.toList) :
    Text.IsInline c := by
  cases t with
  | word s => exact isInline_of_isWordChar (h.isWordChar c hc)
  | quoted s =>
    rw [text, Text.Quoted.write, String.toList_ofList, List.mem_append, List.mem_cons,
      List.mem_flatMap, List.mem_singleton] at hc
    rcases hc with (rfl | ⟨d, -, hd⟩) | rfl
    · exact ⟨by decide, by decide⟩
    · exact Text.Quoted.isInline_of_mem_escape hd
    · exact ⟨by decide, by decide⟩

/-- How a token may be written: a word as it is, and a quoted text between quotes, in any
way in which it may be written there. -/
inductive Spells : Token → List Char → Prop where
  | word (s : String) : Spells (word s) s.toList
  | quoted {s : String} {pieces : List Char} (h : Text.Quoted.SpellsText s.toList pieces) :
      Spells (quoted s) ('"' :: (pieces ++ ['"']))

/-- The text of a token is one of the ways in which it may be written. -/
theorem spells_text (t : Token) : t.Spells t.text.toList := by
  cases t with
  | word s => exact .word s
  | quoted s =>
    have htext :
        (quoted s).text.toList = '"' :: (s.toList.flatMap Text.Quoted.escape ++ ['"']) := by
      simp [text, Text.Quoted.write]
    rw [htext]
    exact .quoted (Text.Quoted.spellsText_escape s.toList)

/-- The token and what follows it are told apart: a word is not continued. -/
def Apart (t : Token) (rest : List Char) : Prop :=
  ∀ s, t = word s → ∀ c ∈ rest.head?, ¬ isWordChar c

/-- A blank sets every token apart from what follows. -/
theorem apart_of_isBlank {t : Token} {rest : List Char} (h : ∀ c ∈ rest.head?, Text.isBlank c) :
    t.Apart rest := by
  intro s _ c hc
  simp [isWordChar, h c hc]

/-- A token is scanned at the front of a text, whichever way it is written. -/
theorem scan_of_spells {t : Token} {cs rest : List Char} (hcs : t.Spells cs) (ht : t.IsPlain)
    (hrest : t.Apart rest) : scan (cs ++ rest) = (scan rest).map (t :: ·) := by
  cases hcs with
  | @quoted s pieces hpieces =>
    have happend : '"' :: (pieces ++ ['"']) ++ rest = '"' :: (pieces ++ '"' :: rest) := by simp
    have hread := Text.Quoted.read_of_spellsText hpieces rest
    rw [happend, scan, if_neg (by decide), if_neg (by decide), if_pos rfl]
    split
    · rename_i he
      rw [hread] at he
      cases he
    · rename_i he
      rw [hread] at he
      cases he
      rw [String.ofList_toList]
      cases scan rest <;> rfl
  | word s =>
    cases hs : s.toList with
    | nil => exact absurd (String.toList_eq_nil_iff.1 hs) ht.ne_empty
    | cons c cs =>
      have hchars := ht.isWordChar
      rw [hs] at hchars
      have hc := hchars c (List.mem_cons_self ..)
      have hcs : ∀ d ∈ cs, isWordChar d := fun d hd => hchars d (List.mem_cons_of_mem _ hd)
      have hcomment : c ≠ ';' := by
        have := ht.no_comment
        rw [hs] at this
        simpa using this
      simp only [isWordChar, Bool.and_eq_true, Bool.not_eq_true', decide_eq_true_eq] at hc
      rw [List.cons_append, scan, if_neg (by simp [hc.1]), if_neg hcomment, if_neg hc.2,
        List.takeWhile_append_of_pos hcs, List.dropWhile_append_of_pos hcs]
      cases rest with
      | nil =>
        rw [List.takeWhile_nil, List.dropWhile_nil, List.append_nil, ← hs, String.ofList_toList]
        cases scan [] <;> rfl
      | cons d rest =>
        have hd : ¬ isWordChar d := hrest s rfl d rfl
        rw [List.takeWhile_cons_of_neg hd, List.dropWhile_cons_of_neg hd, List.append_nil, ← hs,
          String.ofList_toList]
        cases scan (d :: rest) <;> rfl

/-- Blanks in front of a text are skipped. -/
theorem scan_blanks {gap : List Char} (h : ∀ c ∈ gap, Text.isBlank c) (cs : List Char) :
    scan (gap ++ cs) = scan cs := by
  induction gap with
  | nil => rfl
  | cons c gap ih =>
    rw [List.forall_mem_cons] at h
    rw [List.cons_append, scan, if_pos h.1, ih h.2]

/-- Tokens are written one after another, with one or more blanks between any two. -/
inductive Row : List Token → List Char → Prop where
  | nil : Row [] []
  | singleton {t : Token} {cs : List Char} (ht : t.Spells cs) : Row [t] cs
  | cons {t u : Token} {ts : List Token} {cs gap row : List Char} (ht : t.Spells cs)
      (hne : gap ≠ []) (hgap : ∀ c ∈ gap, Text.isBlank c) (hrow : Row (u :: ts) row) :
      Row (t :: u :: ts) (cs ++ (gap ++ row))

/-- The tokens of a row are scanned at the front of a text. -/
theorem scan_row {ts : List Token} {row : List Char} (h : Row ts row) (hts : ∀ t ∈ ts, t.IsPlain)
    {rest : List Char} (hrest : ∀ t ∈ ts.getLast?, t.Apart rest) :
    scan (row ++ rest) = (scan rest).map (ts ++ ·) := by
  induction h with
  | nil =>
    rw [List.nil_append]
    cases scan rest <;> rfl
  | singleton ht => exact scan_of_spells ht (List.forall_mem_singleton.1 hts) (hrest _ rfl)
  | @cons t u ts cs gap row ht hne hgap hrow ih =>
    rw [List.forall_mem_cons] at hts
    have happend : cs ++ (gap ++ row) ++ rest = cs ++ (gap ++ (row ++ rest)) := by simp
    have hapart : t.Apart (gap ++ (row ++ rest)) := by
      refine apart_of_isBlank fun c hc => ?_
      cases gap with
      | nil => exact absurd rfl hne
      | cons d gap =>
        obtain rfl : d = c := Option.some.inj hc
        exact hgap d (List.mem_cons_self ..)
    rw [happend, scan_of_spells ht hts.1 hapart, scan_blanks hgap,
      ih hts.2 (List.getLast?_cons_cons ▸ hrest)]
    cases scan rest <;> rfl

/-- The texts of tokens with a blank between any two make a row. -/
theorem row_intercalate (ts : List Token) : Row ts (" ".intercalate (ts.map text)).toList := by
  induction ts with
  | nil => exact .nil
  | cons t ts ih =>
    cases ts with
    | nil =>
      rw [List.map_cons, List.map_nil, String.intercalate_singleton]
      exact .singleton t.spells_text
    | cons u us =>
      have happend : (" ".intercalate ((t :: u :: us).map text)).toList =
          t.text.toList ++ ([' '] ++ (" ".intercalate ((u :: us).map text)).toList) := by
        simp only [List.map_cons, String.intercalate_cons_cons, String.toList_append,
          List.append_assoc]
        rfl
      rw [happend]
      have hgap : ∀ c ∈ [' '], Text.isBlank c := List.forall_mem_singleton.2 (by decide)
      exact .cons t.spells_text (List.cons_ne_nil _ _) hgap ih

/-- Tokens with a blank between any two are scanned as they were written. -/
theorem scan_intercalate {ts : List Token} (h : ∀ t ∈ ts, t.IsPlain) :
    scan (" ".intercalate (ts.map text)).toList = .ok ts := by
  have hend : ∀ t ∈ ts.getLast?, t.Apart [] := fun _ _ => apart_of_isBlank (by simp)
  have hscan := scan_row (row_intercalate ts) h hend
  rw [List.append_nil, scan] at hscan
  rw [hscan]
  exact congrArg Except.ok (List.append_nil ts)

/-- Tokens with a blank between any two stay on their line. -/
theorem isInline_of_mem_intercalate {ts : List Token} (h : ∀ t ∈ ts, t.IsPlain) {c : Char}
    (hc : c ∈ (" ".intercalate (ts.map text)).toList) : Text.IsInline c := by
  induction ts with
  | nil => cases hc
  | cons t ts ih =>
    have ht := h t (List.mem_cons_self ..)
    cases ts with
    | nil =>
      rw [List.map_cons, List.map_nil, String.intercalate_singleton] at hc
      exact isInline_of_mem_text ht hc
    | cons u us =>
      rw [List.map_cons, List.map_cons, String.intercalate_cons_cons, String.toList_append,
        String.toList_append] at hc
      rcases List.mem_append.1 hc with hc | hc
      · rcases List.mem_append.1 hc with hc | hc
        · exact isInline_of_mem_text ht hc
        · rw [List.mem_singleton.1 hc]
          exact ⟨by decide, by decide⟩
      · exact ih (fun u hu => h u (List.mem_cons_of_mem _ hu)) hc

end Token

end Assembly

end StackMachine
