import StackMachine.Proofs.Reading

/-!
# Layouts of a line

Tokens may stand on a line with any blanks around them and between them, with their quoted
texts written in any way, and with a comment at the end of the line. Whatever the layout is,
scanning the line finds those tokens and nothing else. Words cannot be just anything: those
that are ever found on a line are the ones that can be told apart when they are written.
-/

namespace StackMachine.Assembly.Token

/-- What may follow the tokens of a line: nothing, or a comment. -/
inductive Remark : List Char → Prop where
  | nothing : Remark []
  | comment (text : List Char) : Remark (';' :: text)

/-- A line with tokens in a row on it, blanks around them, and maybe a comment at its end. A
semicolon that follows a word directly would be part of the word. -/
inductive Layout (ts : List Token) : List Char → Prop where
  | intro {leading row trailing remark : List Char}
      (hleading : ∀ c ∈ leading, Text.isBlank c) (hrow : Row ts row)
      (htrailing : ∀ c ∈ trailing, Text.isBlank c) (hremark : Remark remark)
      (hapart : remark = [] ∨ trailing ≠ [] ∨ ∀ s, ts.getLast? ≠ some (word s)) :
      Layout ts (leading ++ (row ++ (trailing ++ remark)))

/-- No token stands in a comment. -/
theorem scan_remark {remark : List Char} (h : Remark remark) : scan remark = .ok [] := by
  cases h with
  | nothing => rw [scan]
  | comment text => rw [scan, if_neg (by decide), if_pos rfl]

/-- The last token of a line is told apart from what follows it. -/
theorem apart_of_remark {t : Token} {trailing remark : List Char}
    (htrailing : ∀ c ∈ trailing, Text.isBlank c)
    (hapart : remark = [] ∨ trailing ≠ [] ∨ ∀ s, t ≠ word s) : t.Apart (trailing ++ remark) := by
  cases trailing with
  | cons c trailing =>
    refine apart_of_isBlank fun d hd => ?_
    obtain rfl : c = d := Option.some.inj hd
    exact htrailing c (List.mem_cons_self ..)
  | nil =>
    rcases hapart with rfl | hne | hquoted
    · exact apart_of_isBlank (by simp)
    · exact absurd rfl hne
    · exact fun s hs => absurd hs (hquoted s)

/-- A line is scanned as the tokens that are laid out on it. -/
theorem scan_of_layout {ts : List Token} {line : List Char} (h : Layout ts line)
    (hts : ∀ t ∈ ts, t.IsPlain) : scan line = .ok ts := by
  obtain @⟨leading, row, trailing, remark, hleading, hrow, htrailing, hremark, hapart⟩ := h
  have hlast : ∀ t ∈ ts.getLast?, t.Apart (trailing ++ remark) := by
    intro t ht
    refine apart_of_remark htrailing (hapart.imp_right (Or.imp_right fun hword s hs => ?_))
    exact hword s (hs ▸ ht)
  have hend : scan (trailing ++ remark) = .ok [] :=
    (scan_blanks htrailing remark).trans (scan_remark hremark)
  rw [scan_blanks hleading, scan_row hrow hts hlast, hend]
  exact congrArg Except.ok (List.append_nil ts)

/-- Scanning inverts writing. Words that are not empty, have no blank and no quote in them and
do not begin with a semicolon, and quoted texts with anything in them, are found again in every
layout of a line; the text that is shown of a token is a way of writing it. And nothing else is
found on any line, so that what is found on it is found again however it is laid out. -/
theorem lines_scan_as_laid_out :
    (∀ (ts : List Token) (line : List Char),
        (∀ t ∈ ts, t.IsPlain) → Layout ts line → scan line = .ok ts) ∧
      (∀ t : Token, t.Spells t.text.toList) ∧
      ∀ (line : List Char) (ts : List Token), scan line = .ok ts →
        (∀ t ∈ ts, t.IsPlain) ∧ ∀ line', Layout ts line' → scan line' = .ok ts := by
  refine ⟨fun ts line hts hline => scan_of_layout hline hts, spells_text, ?_⟩
  intro line ts hscan
  have hts := isPlain_of_scan hscan
  exact ⟨hts, fun line' hline' => scan_of_layout hline' hts⟩

/-- Semicolons in a word and in a quoted text, an escaped quote, a character in hexadecimal and
an unusual blank, with a quote in the comment. -/
theorem lines_scan_as_laid_out_semicolons :
    let ts := [word "putstatic", word "La;b", quoted "x;\"é"]
    let line := "\tputstatic\u3000La;b  \"x;\\\"\\u\x7be9\x7d\"; it's \"so".toList
    (∀ t ∈ ts, t.IsPlain) ∧ Layout ts line ∧ scan line = .ok ts := by
  intro ts line
  have hts : ∀ t ∈ ts, t.IsPlain := by
    refine List.forall_mem_cons.2 ⟨?_, List.forall_mem_cons.2 ⟨?_, ?_⟩⟩
    · exact (by decide : IsWord "putstatic")
    · exact (by decide : IsWord "La;b")
    · exact List.forall_mem_singleton.2 trivial
  have htext : Text.Quoted.SpellsText "x;\"é".toList "x;\\\"\\u\x7be9\x7d".toList :=
    .cons (.itself (by decide) (by decide)) (.cons (.itself (by decide) (by decide))
      (.cons .quote (.cons (.hexadecimal 'é') .nil)))
  have hlast : Row [word "La;b", quoted "x;\"é"]
      ("La;b".toList ++ ([' ', ' '] ++ '"' :: ("x;\\\"\\u\x7be9\x7d".toList ++ ['"']))) :=
    .cons (.word _) (by decide) (List.all_eq_true.1 (by decide)) (.singleton (.quoted htext))
  have hrow : Row ts ("putstatic".toList ++ (['\u3000'] ++ _)) :=
    .cons (.word _) (by decide) (List.all_eq_true.1 (by decide)) hlast
  have hremark : Remark (';' :: " it's \"so".toList) := .comment _
  have hline : Layout ts (['\t'] ++ (_ ++ ([] ++ _))) :=
    .intro (List.all_eq_true.1 (by decide)) hrow (List.forall_mem_nil _) hremark
      (.inr (.inr fun s => by simp [ts]))
  exact ⟨hts, hline, lines_scan_as_laid_out.1 ts line hts hline⟩

end StackMachine.Assembly.Token
