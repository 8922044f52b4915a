import StackMachine.Assembly
import StackMachine.Proofs.Descriptors
import StackMachine.Proofs.Numbers

/-!
# Reading back statements

The text of a statement is a row of tokens, and the tokens of an operand that fits its
opcode are read as that operand. What does not come back is the payload of a NaN, and
arrays: the word that shows an array is nowhere accepted.
-/

namespace StackMachine

namespace Literal

/-- The literal, or if it is a NaN that which is read for one. -/
def canonical : Literal → Literal
  | float x => float x.canonical
  | double x => double x.canonical
  | l => l

/-- The tokens of a literal. -/
def tokens : Literal → List Assembly.Token
  | string s => [.quoted s]
  | className name => [.word "class", .word name]
  | l => [.word l.text]

/-- A literal that its text gives back: its kind is wide or is not, as it has to be, it is
not an array, and a class has a word for its name. -/
def Fits (wide : Bool) (l : Literal) : Prop :=
  l.kind.isWide = wide ∧
    match l with
    | className name => Assembly.IsWord name
    | array .. => False
    | _ => True

/-- The text of a literal is that of its tokens, with blanks between them. -/
theorem text_eq (l : Literal) : l.text = " ".intercalate (l.tokens.map Assembly.Token.text) := by
  cases l <;> rfl

@[simp] theorem kind_canonical (l : Literal) : l.canonical.kind = l.kind := by cases l <;> rfl

end Literal

namespace Operand

variable {α β : Type}

/-- The operand is of the variant that a shape stands for, immediates of a byte or a short
are in range, names are words, and constants, wide or not, are such as they have to be. -/
def Fits (constant : Bool → α → Prop) : Shape → Operand α → Prop
  | .none, none => True
  | .slot, slot _ => True
  | .byte, immediate n => Int8.minValue.toInt ≤ n.toInt ∧ n.toInt ≤ Int8.maxValue.toInt
  | .short, immediate n => Int16.minValue.toInt ≤ n.toInt ∧ n.toInt ≤ Int16.maxValue.toInt
  | .constant, .constant c => constant false c
  | .wideConstant, .constant c => constant true c
  | .increment, increment _ _ => True
  | .branch, branch _ => True
  | .elementKind, elementKind _ => True
  | .field, field f => Assembly.IsWord f.name
  | .method, method m => Assembly.IsWord m.name
  | _, _ => False

/-- An operand still fits when its constant is changed. -/
theorem Fits.map {P : Bool → α → Prop} {Q : Bool → β → Prop} {g : α → β} {shape : Shape}
    {o : Operand α} (h : o.Fits P shape) (hconstant : ∀ wide c, P wide c → Q wide (g c)) :
    (o.map g).Fits Q shape := by
  cases o with
  | constant c =>
    cases shape with
    | constant => exact hconstant _ _ h
    | wideConstant => exact hconstant _ _ h
    | _ => exact h.elim
  | _ => cases shape <;> exact h

/-- The tokens of an operand. -/
def tokens : Operand Literal → List Assembly.Token
  | .constant l => l.tokens
  | o => (o.words Literal.text).map .word

end Operand

namespace Assembly

open Numeral

/-- The tokens of a statement. -/
def Statement.tokens (s : Statement) : List Token := .word s.opcode.mnemonic :: s.operand.tokens

/-- The text of a statement is that of its tokens, with a blank between any two. -/
theorem Statement.text_eq (s : Statement) :
    s.text Literal.text = " ".intercalate (s.tokens.map Token.text) := by
  obtain ⟨op, o⟩ := s
  have hwords (ws : List String) : (ws.map Token.word).map Token.text = ws := by
    rw [List.map_map]
    exact List.map_id ws
  cases o with
  | constant l =>
    have hne : l.tokens.map Token.text ≠ [] := by cases l <;> exact List.cons_ne_nil _ _
    change " ".intercalate [op.mnemonic, l.text] =
      " ".intercalate (op.mnemonic :: l.tokens.map Token.text)
    rw [String.intercalate_cons_of_ne_nil hne, ← l.text_eq]
    rfl
  | _ =>
    change " ".intercalate (op.mnemonic :: _) =
      " ".intercalate (op.mnemonic :: (List.map Token.word _).map Token.text)
    rw [hwords]

/-! ### Words -/

/-- A natural number is written as a word. -/
theorem isWord_natText (n : Nat) : IsWord (natText n) :=
  isWord_of_isNumberChar (ofNat_ne_nil n) fun _ hc =>
    isNumberChar_of_isDigit (isDigit_of_mem_ofNat hc)

theorem isWord_intText (n : Int) : IsWord (intText n) := by
  refine isWord_of_isNumberChar ?_ fun _ => isNumberChar_of_mem_ofInt
  rw [ofInt_eq]
  exact List.append_ne_nil_of_right_ne_nil _ (ofNat_ne_nil _)

theorem isWord_signedText (n : Int) : IsWord (signedText n) := by
  refine isWord_of_isNumberChar (List.cons_ne_nil _ _) ?_
  intro c hc
  rcases List.mem_cons.1 hc with rfl | hc
  · split <;> decide
  · exact isNumberChar_of_isDigit (isDigit_of_mem_ofNat hc)

/-- The mnemonics of all opcodes are words. -/
private theorem isWord_of_mem : ∀ op ∈ Opcode.all, IsWord op.mnemonic := by decide +kernel

/-- Every mnemonic is a word. -/
theorem isWord_mnemonic (op : Opcode) : IsWord op.mnemonic := isWord_of_mem op op.mem_all

theorem isWord_name (k : ElementKind) : IsWord k.name := by cases k <;> decide

theorem isWord_ofKind (k : Kind) : IsWord (Descriptor.ofKind k) := by cases k <;> decide

theorem isWord_descriptor (m : MethodRef) : IsWord m.descriptor := by
  have hparams : ∀ c ∈ (String.join (m.params.map Descriptor.ofKind)).toList,
      Token.isWordChar c := by
    intro c hc
    rw [String.toList_join, List.flatMap_map, List.mem_flatMap] at hc
    obtain ⟨k, -, hc⟩ := hc
    exact (isWord_ofKind k).isWordChar c hc
  have htext : ∃ r, IsWord r ∧
      m.descriptor.toList =
        '(' :: ((String.join (m.params.map Descriptor.ofKind)).toList ++ ')' :: r.toList) := by
    unfold MethodRef.descriptor Descriptor.ofMethod
    cases m.result with
    | none => exact ⟨"V", by decide, by simp⟩
    | some k => exact ⟨Descriptor.ofKind k, isWord_ofKind k, by simp⟩
  obtain ⟨r, hr, htext⟩ := htext
  refine ⟨fun he => ?_, fun c hc => ?_, ?_⟩
  · rw [he] at htext
    cases htext
  · rw [htext, List.mem_cons, List.mem_append, List.mem_cons] at hc
    rcases hc with rfl | hc | rfl | hc
    · decide
    · exact hparams c hc
    · decide
    · exact hr.isWordChar c hc
  · rw [htext]
    exact fun he => absurd (Option.some.inj he) (by decide)

/-! ### Operands -/

/-- A word that is read as a number between the bounds is taken as that number. -/
theorem takeInt_word {lo hi n : Int} {w : String} (hread : readInt? w.toList = some n)
    (hrange : lo ≤ n ∧ n ≤ hi) (owner : String) (expected : Nat) (rest : List Token) :
    takeInt lo hi owner expected (.word w :: rest) = .ok (n, rest) := by
  simp only [takeInt, takeWord, bind, Except.bind, hread]
  exact if_pos hrange

/-- The decimal text of a slot is taken as that slot. -/
theorem takeSlot_word (i : UInt16) (owner : String) (expected : Nat) (rest : List Token) :
    takeSlot owner expected (.word (natText i.toNat) :: rest) = .ok (i, rest) := by
  have hread : readNat? (natText i.toNat).toList = some i.toNat := by
    rw [natText, String.toList_ofList, readNat?_ofNat]
  simp only [takeSlot, takeWord, bind, Except.bind, hread]
  rw [if_pos i.toNat_lt_size, UInt16.ofNat_toNat]
  rfl

/-- A word that is read as a distance is taken as that distance. -/
theorem takeShort_word {d : Int16} {w : String} (hread : readInt? w.toList = some d.toInt)
    (owner : String) (expected : Nat) (rest : List Token) :
    takeShort owner expected (.word w :: rest) = .ok (d, rest) := by
  unfold takeShort
  rw [takeInt_word hread ⟨d.minValue_le_toInt, d.toInt_le⟩]
  simp only [bind, Except.bind, Int16.ofInt_toInt]
  rfl

/-- What looks like a number is read as one. -/
theorem takeConstant_word {w : String} (h : looksNumeric w.toList) (rest : List Token) :
    takeConstant (.word w :: rest) = (readNumber w).map (·, rest) := by
  have hne {s : String} (hs : looksNumeric s.toList = false) : w ≠ s := by
    rintro rfl
    rw [h] at hs
    cases hs
  simp only [takeConstant]
  rw [if_neg (hne (by decide)), if_neg (hne (by decide))]
  cases readNumber w <;> rfl

/-- A word for a number is taken as that number. -/
theorem takeConstant_number {w : String} {l : Literal} (h : IsNumber w l) (rest : List Token) :
    takeConstant (.word w :: rest) = .ok (l, rest) := by
  rw [takeConstant_word h.looksNumeric, h.readNumber]
  rfl

/-- The tokens of a literal that fits are read as the literal. -/
theorem takeConstant_tokens {wide : Bool} {l : Literal} (h : l.Fits wide) (rest : List Token) :
    takeConstant (l.tokens ++ rest) = .ok (l.canonical, rest) := by
  cases l with
  | int n => exact takeConstant_number (isNumber_int n) rest
  | long n => exact takeConstant_number (isNumber_long n) rest
  | float x => exact takeConstant_number (isNumber_float x) rest
  | double x => exact takeConstant_number (isNumber_double x) rest
  | null => rfl
  | string s => rfl
  | className name => rfl
  | array k n => exact h.2.elim

/-- Words can be told apart. -/
theorem isPlain_words {ws : List String} (h : ∀ w ∈ ws, IsWord w) :
    ∀ t ∈ ws.map Token.word, t.IsPlain := by
  intro t ht
  obtain ⟨w, hw, rfl⟩ := List.mem_map.1 ht
  exact h w hw

/-- The tokens of a literal that fits can be told apart. -/
theorem isPlain_tokens {wide : Bool} {l : Literal} (h : l.Fits wide) :
    ∀ t ∈ l.tokens, t.IsPlain := by
  have hword {w : String} (hw : IsWord w) : ∀ t ∈ [Token.word w], t.IsPlain :=
    isPlain_words (List.forall_mem_singleton.2 hw)
  cases l with
  | int n => exact hword (isNumber_int n).isWord
  | long n => exact hword (isNumber_long n).isWord
  | float x => exact hword (isNumber_float x).isWord
  | double x => exact hword (isNumber_double x).isWord
  | null => exact hword (by decide)
  | string s =>
    intro t ht
    rw [List.mem_singleton.1 ht]
    trivial
  | className name =>
    have hclass : IsWord "class" := by decide
    exact isPlain_words (List.forall_mem_cons.2 ⟨hclass, List.forall_mem_singleton.2 h.2⟩)
  | array k n => exact h.2.elim

/-- The tokens of a literal are read as the literal, made canonical. -/
theorem readConstantOperand_tokens {wide : Bool} {l : Literal} (h : l.Fits wide)
    (mnemonic : String) :
    readConstantOperand mnemonic wide l.tokens = .ok (.constant l.canonical) := by
  have htake := takeConstant_tokens h []
  rw [List.append_nil] at htake
  unfold readConstantOperand
  split
  · rename_i hnil
    cases l <;> cases hnil
  · rw [htake]
    change (if l.canonical.kind.isWide = wide then Except.ok (Operand.constant l.canonical)
      else _) = _
    rw [if_pos (l.kind_canonical ▸ h.1)]

/-- The tokens of an operand that fits its opcode are read as the operand. -/
theorem readOperand_tokens {op : Opcode} {o : Operand Literal} (h : o.Fits Literal.Fits op.shape) :
    readOperand op o.tokens = .ok (o.map Literal.canonical) := by
  have hint (n : Int) : readInt? (intText n).toList = some n := by
    rw [intText, String.toList_ofList, readInt?_ofInt]
  have hsigned (n : Int) : readInt? (signedText n).toList = some n := by
    rw [signedText, String.toList_ofList, readInt?_ofIntSigned]
  unfold readOperand
  dsimp only
  generalize op.shape = shape at h
  cases o with
  | none =>
    cases shape with
    | none => rfl
    | _ => exact h.elim
  | slot i =>
    cases shape with
    | slot =>
      simp only [Operand.tokens, Operand.words, List.map_cons, takeSlot_word]
      rfl
    | _ => exact h.elim
  | immediate n =>
    cases shape with
    | byte =>
      simp only [Operand.tokens, Operand.words, List.map_cons, takeInt_word (hint _) h]
      exact congrArg (fun n => Except.ok (Operand.immediate n)) n.ofInt_toInt
    | short =>
      have hwide : (Int16.ofInt n.toInt).toInt32 = n := by
        rw [Int16.toInt32_ofInt h.1 h.2, Int32.ofInt_toInt]
      simp only [Operand.tokens, Operand.words, List.map_cons, takeShort, takeInt_word (hint _) h]
      exact congrArg (fun n => Except.ok (Operand.immediate n)) hwide
    | _ => exact h.elim
  | constant l =>
    cases shape with
    | constant => exact readConstantOperand_tokens h op.mnemonic
    | wideConstant => exact readConstantOperand_tokens h op.mnemonic
    | _ => exact h.elim
  | increment i d =>
    cases shape with
    | increment =>
      simp only [Operand.tokens, Operand.words, List.map_cons, takeSlot_word]
      simp only [bind, Except.bind, takeShort_word (hint _)]
      rfl
    | _ => exact h.elim
  | branch d =>
    cases shape with
    | branch =>
      simp only [Operand.tokens, Operand.words, List.map_cons, takeShort_word (hsigned _)]
      rfl
    | _ => exact h.elim
  | elementKind k =>
    cases shape with
    | elementKind =>
      have hread : readElementKind? k.name = some k := by
        rw [readElementKind?, ElementKind.ofName?_name]
        rfl
      simp only [Operand.tokens, Operand.words, List.map_cons, takeWord, bind, Except.bind, hread]
      rfl
    | _ => exact h.elim
  | field f =>
    cases shape with
    | field =>
      simp only [Operand.tokens, Operand.words, List.map_cons, takeWord, bind, Except.bind,
        Descriptor.readField?_ofKind]
      rfl
    | _ => exact h.elim
  | method m =>
    cases shape with
    | method =>
      have hread : Descriptor.readMethod? m.descriptor.toList = some (m.params, m.result) :=
        Descriptor.readMethod?_ofMethod m.params m.result
      simp only [Operand.tokens, Operand.words, List.map_cons, takeWord, bind, Except.bind, hread]
      rfl
    | _ => exact h.elim

/-- The words of an operand that fits can be told apart. -/
theorem isPlain_operandTokens {shape : Shape} {o : Operand Literal}
    (h : o.Fits Literal.Fits shape) : ∀ t ∈ o.tokens, t.IsPlain := by
  cases o with
  | none => exact isPlain_words (List.forall_mem_nil _)
  | slot i => exact isPlain_words (List.forall_mem_singleton.2 (isWord_natText _))
  | immediate n => exact isPlain_words (List.forall_mem_singleton.2 (isWord_intText _))
  | constant l =>
    cases shape with
    | constant => exact isPlain_tokens h
    | wideConstant => exact isPlain_tokens h
    | _ => exact h.elim
  | increment i d =>
    exact isPlain_words
      (List.forall_mem_cons.2 ⟨isWord_natText _, List.forall_mem_singleton.2 (isWord_intText _)⟩)
  | branch d => exact isPlain_words (List.forall_mem_singleton.2 (isWord_signedText _))
  | elementKind k => exact isPlain_words (List.forall_mem_singleton.2 (isWord_name k))
  | field f =>
    cases shape with
    | field =>
      exact isPlain_words
        (List.forall_mem_cons.2 ⟨h, List.forall_mem_singleton.2 (isWord_ofKind _)⟩)
    | _ => exact h.elim
  | method m =>
    cases shape with
    | method =>
      exact isPlain_words
        (List.forall_mem_cons.2 ⟨h, List.forall_mem_singleton.2 (isWord_descriptor m)⟩)
    | _ => exact h.elim

namespace Statement

/-- The operand of a statement is one that its text gives back. -/
def Fits (s : Statement) : Prop := s.operand.Fits Literal.Fits s.opcode.shape

/-- The tokens of a statement that fits its opcode are plain. -/
theorem isPlain_tokens {s : Statement} (h : s.Fits) : ∀ t ∈ s.tokens, t.IsPlain := by
  intro t ht
  rcases List.mem_cons.1 ht with rfl | ht
  · exact isWord_mnemonic s.opcode
  · exact isPlain_operandTokens h t ht

/-- The text of a statement that fits is read as the statement. -/
theorem ofLine_text {s : Statement} (h : s.Fits) :
    ofLine (s.text Literal.text).toList = .ok (some (s.map Literal.canonical)) := by
  rw [text_eq, ofLine, Token.scan_intercalate (isPlain_tokens h)]
  simp only [bind, Except.bind, tokens, ofTokens, Opcode.ofMnemonic?_mnemonic,
    readOperand_tokens h]
  rfl

/-- The text of a statement that fits stays on its line. -/
theorem isInline_text {s : Statement} (h : s.Fits) :
    ∀ c ∈ (s.text Literal.text).toList, Text.IsInline c := by
  rw [text_eq]
  exact fun c => Token.isInline_of_mem_intercalate (isPlain_tokens h)

end Statement

/-! ### Arrays -/

/-- The text of an array begins with a small letter and has a bracket in it. -/
theorem exists_arrayText_eq_cons (k : ElementKind) (n : Nat) :
    ∃ c cs, (Literal.array k n).text.toList = c :: cs ∧ c ∈ "bscilfdr".toList ∧ '[' ∈ cs := by
  have htext : (Literal.array k n).text.toList =
      k.name.toList ++ '[' :: (natText n).toList ++ [']'] := by
    simp [Literal.text]
  rw [htext]
  cases k <;> exact ⟨_, _, rfl, by decide, by simp⟩

/-- What is written for an array constant is a word. -/
theorem isWord_arrayText (k : ElementKind) (n : Nat) : IsWord (Literal.array k n).text := by
  have htext : (Literal.array k n).text.toList =
      k.name.toList ++ '[' :: (natText n).toList ++ [']'] := by
    simp [Literal.text]
  have hall : ∀ c ∈ (Literal.array k n).text.toList, Token.isWordChar c := by
    intro c hc
    rw [htext, List.mem_append, List.mem_append, List.mem_cons, List.mem_singleton] at hc
    rcases hc with (hc | rfl | hc) | rfl
    · exact (isWord_name k).isWordChar c hc
    · decide
    · exact (isWord_natText n).isWordChar c hc
    · decide
  obtain ⟨c, cs, hcons, hc, -⟩ := exists_arrayText_eq_cons k n
  refine ⟨fun he => ?_, hall, ?_⟩
  · rw [he] at hcons
    cases hcons
  · rw [hcons]
    intro he
    cases he
    exact absurd hc (by decide)

/-- A word that no operand begins with, unless it is the name of a field or a method: it is
no number, no kind of elements and not the beginning of a constant. -/
structure IsForeign (w : String) : Prop where
  readNat? : readNat? w.toList = none
  readInt? : readInt? w.toList = none
  looksNumeric : looksNumeric w.toList = false
  ofName? : ElementKind.ofName? w = none
  ne_null : w ≠ "null"
  ne_class : w ≠ "class"

/-- What is written for an array constant is read as no literal. -/
theorem isForeign_arrayText (k : ElementKind) (n : Nat) : IsForeign (Literal.array k n).text := by
  obtain ⟨c, cs, hcons, hc, hbracket⟩ := exists_arrayText_eq_cons k n
  generalize (Literal.array k n).text = w at hcons ⊢
  have hletters : "bscilfdr".toList.all fun c =>
      !c.isDigit && c ≠ '+' && c ≠ '-' && c ≠ '.' && c ≠ 'N' && c ≠ 'I' := by decide
  have hletter := List.all_eq_true.1 hletters c hc
  simp only [Bool.and_eq_true, Bool.not_eq_true', ← Bool.not_eq_true, decide_eq_true_eq,
    and_assoc] at hletter
  obtain ⟨hdigit, hplus, hminus, hpoint, hN, hI⟩ := hletter
  have hread : readDigits? w.toList = none := by
    rw [hcons]
    exact if_neg fun h => hdigit (List.all_eq_true.1 h.2 c (List.mem_cons_self ..))
  have hne {s : String} (hs : '[' ∉ s.toList) : w ≠ s := by
    rintro rfl
    exact hs (hcons ▸ List.mem_cons_of_mem _ hbracket)
  refine ⟨?_, ?_, ?_, ?_, hne (by decide), hne (by decide)⟩
  · unfold Numeral.readNat?
    split
    · rename_i he
      exact absurd (List.cons.inj (hcons.symm.trans he)).1 hplus
    · exact hread
  · have hsign : splitSign w.toList = (false, w.toList) := by
      unfold splitSign
      split
      · rename_i he
        exact absurd (List.cons.inj (hcons.symm.trans he)).1 hminus
      · rename_i he
        exact absurd (List.cons.inj (hcons.symm.trans he)).1 hplus
      · rfl
    rw [readInt?_eq, hsign, hread]
    rfl
  · rw [hcons, Assembly.looksNumeric, List.dropWhile_cons_of_neg (by simp [hminus, hplus])]
    simp [hdigit, hpoint, hN, hI]
  · refine List.find?_eq_none.2 ?_
    intro k' _
    rw [decide_eq_true_eq]
    refine (hne ?_).symm
    cases k' <;> decide

/-- No operand is read from a foreign word alone. -/
theorem readOperand_foreign {w : String} (h : IsForeign w) (op : Opcode) :
    ∃ p, readOperand op [.word w] = .error p := by
  have hconstant (m : String) (wide : Bool) :
      ∃ p, readConstantOperand m wide [.word w] = .error p := by
    refine ⟨.invalidLiteral w, ?_⟩
    simp only [readConstantOperand, takeConstant, readNumber, bind, Except.bind, h.looksNumeric]
    rw [if_neg h.ne_null, if_neg h.ne_class]
    rfl
  have hkind : readElementKind? w = none := by
    rw [readElementKind?, h.ofName?, h.readNat?]
    rfl
  have hslot (owner : String) (n : Nat) :
      takeSlot owner n [.word w] = .error (.invalidNumber w) := by
    simp only [takeSlot, takeWord, bind, Except.bind, h.readNat?]
    rfl
  have hint (lo hi : Int) (owner : String) (n : Nat) :
      takeInt lo hi owner n [.word w] = .error (.invalidNumber w) := by
    simp only [takeInt, takeWord, bind, Except.bind, h.readInt?]
    rfl
  have hshort (owner : String) (n : Nat) :
      takeShort owner n [.word w] = .error (.invalidNumber w) := by
    rw [takeShort, hint]
    rfl
  unfold readOperand
  dsimp only
  cases op.shape with
  | none => exact ⟨_, rfl⟩
  | slot => exact ⟨_, by simp only [hslot]; rfl⟩
  | byte => exact ⟨_, by simp only [hint]; rfl⟩
  | short => exact ⟨_, by simp only [hshort]; rfl⟩
  | constant => exact hconstant _ _
  | wideConstant => exact hconstant _ _
  | increment => exact ⟨_, by simp only [hslot]; rfl⟩
  | branch => exact ⟨_, by simp only [hshort]; rfl⟩
  | elementKind => exact ⟨_, by simp only [takeWord, bind, Except.bind, hkind]; rfl⟩
  | field => exact ⟨_, rfl⟩
  | method => exact ⟨_, rfl⟩

namespace Statement

variable {s : Statement} {k : ElementKind} {n : Nat}

/-- The tokens of a statement with an array constant are plain all the same. -/
theorem isPlain_tokens_array (h : s.operand = .constant (.array k n)) :
    ∀ t ∈ s.tokens, t.IsPlain := by
  have hwords : s.tokens = [s.opcode.mnemonic, (Literal.array k n).text].map Token.word := by
    rw [tokens, h]
    rfl
  rw [hwords]
  exact isPlain_words (List.forall_mem_cons.2
    ⟨isWord_mnemonic s.opcode, List.forall_mem_singleton.2 (isWord_arrayText k n)⟩)

/-- Its text stays on one line. -/
theorem isInline_array (h : s.operand = .constant (.array k n)) :
    ∀ c ∈ (s.text Literal.text).toList, Text.IsInline c := by
  rw [text_eq]
  exact fun c => Token.isInline_of_mem_intercalate (isPlain_tokens_array h)

/-- No statement is read from a text that shows an array. -/
theorem ofLine_array (h : s.operand = .constant (.array k n)) :
    ∃ p, ofLine (s.text Literal.text).toList = .error p := by
  obtain ⟨p, hp⟩ := readOperand_foreign (isForeign_arrayText k n) s.opcode
  refine ⟨p, ?_⟩
  rw [text_eq, ofLine, Token.scan_intercalate (isPlain_tokens_array h)]
  simp only [bind, Except.bind, tokens, h, ofTokens, Opcode.ofMnemonic?_mnemonic, Operand.tokens,
    Literal.tokens, hp]

end Statement

end Assembly

end StackMachine
