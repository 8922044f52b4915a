import StackMachine.Proofs.Layout

/-!
# Words on their own

A word is read as the same literal wherever it stands alone: as a value, or as the operand of an
opcode that loads constants, which moreover has to be as wide as the opcode wants. So what is
known of the words that look like numbers holds in both places.
-/

namespace StackMachine

/-- The opcode takes a constant, which has to be wide or must not be. -/
def Opcode.TakesConstant (op : Opcode) (wide : Bool) : Prop :=
  op.shape = if wide then .wideConstant else .constant

namespace Assembly

open Token (Layout)

variable {w text : String} {op : Opcode} {wide : Bool} {line : List Char} {l : Literal}
  {s : Option Statement}

/-- Read a word on its own. -/
def readWord (w : String) : Except Problem Literal := (takeConstant [.word w]).map Prod.fst

/-- What a word on its own is read as. -/
def WordReads (w : String) (l : Literal) : Prop :=
  w = "null" ∧ l = .null ∨ looksNumeric w.toList ∧ numberLiteral? w.toList = some l

/-- A suffix is stripped if it is one of the two letters. -/
theorem stripSuffix?_eq_some_iff {upper lower : Char} {cs body : List Char} :
    stripSuffix? upper lower cs = some body ↔
      ∃ suffix, (suffix = upper ∨ suffix = lower) ∧ cs = body ++ [suffix] := by
  constructor
  · intro h
    unfold stripSuffix? at h
    split at h
    · rename_i suffix hlast
      split at h
      · rename_i hsuffix
        cases h
        exact ⟨suffix, hsuffix, (List.dropLast_append_getLast? suffix hlast).symm⟩
      · cases h
    · cases h
  · rintro ⟨suffix, hsuffix, rfl⟩
    rw [stripSuffix?_concat, if_pos hsuffix]

/-- A constant of one word is what the word is read as. -/
theorem takeConstant_singleton (w : String) :
    takeConstant [.word w] = (readWord w).map (·, []) := by
  simp only [readWord, takeConstant]
  split
  · rfl
  · split
    · rfl
    · cases readNumber w <;> rfl

/-- What looks like a number is read as one. -/
theorem readWord_of_looksNumeric (h : looksNumeric w.toList) : readWord w = readNumber w := by
  rw [readWord, takeConstant_word h]
  cases readNumber w <;> rfl

/-- A word is read as a number exactly if it looks like one and is one. -/
theorem readNumber_eq_ok_iff :
    readNumber w = .ok l ↔ looksNumeric w.toList ∧ numberLiteral? w.toList = some l := by
  unfold readNumber
  split
  · rename_i hlooks
    cases numberLiteral? w.toList <;> simp [hlooks]
  · rename_i hlooks
    simp [hlooks]

/-- A word is read as a literal exactly if the grammar says so. -/
theorem readWord_eq_ok_iff : readWord w = .ok l ↔ WordReads w l := by
  by_cases hlooks : looksNumeric w.toList
  · have hnull : w ≠ "null" := by
      rintro rfl
      cases hlooks
    rw [readWord_of_looksNumeric hlooks, readNumber_eq_ok_iff, WordReads]
    simp [hnull]
  · simp only [readWord, takeConstant, WordReads, hlooks]
    split
    · rename_i hnull
      simp [hnull, Except.map, pure, Except.pure, eq_comm]
    · rename_i hnull
      split
      · simp [hnull, takeWord, bind, Except.bind, Except.map]
      · simp [hnull, readNumber, hlooks, bind, Except.bind, Except.map]

/-- A line with a mnemonic is read by its operand. -/
theorem Statement.ofLine_of_instruction {args : List Token}
    (h : Layout (.word op.mnemonic :: args) line) (hargs : ∀ t ∈ args, t.IsPlain) :
    Statement.ofLine line = (readOperand op args >>= fun o => .ok (some ⟨op, o⟩)) := by
  have hts : ∀ t ∈ Token.word op.mnemonic :: args, t.IsPlain :=
    List.forall_mem_cons.2 ⟨isWord_mnemonic op, hargs⟩
  rw [Statement.ofLine, Token.scan_of_layout h hts]
  simp only [bind, Except.bind, Statement.ofTokens, Opcode.ofMnemonic?_mnemonic]
  rfl

/-- A text with nothing but a word on it is read as the word is. -/
theorem readValue_of_word (h : Layout [.word w] text.toList) (hw : IsWord w) :
    readValue text = (readWord w).mapError (Error.mk 1) := by
  have hscan := Token.scan_of_layout h (List.forall_mem_singleton.2 hw)
  unfold readValue
  rw [hscan]
  simp only [bind, Except.bind]
  rw [takeConstant_singleton]
  cases readWord w <;> rfl

/-- An opcode with a word behind it takes what the word is read as, if that is as wide as it has to
be. -/
theorem ofLine_of_word (hop : op.TakesConstant wide)
    (h : Layout [.word op.mnemonic, .word w] line) (hw : IsWord w) :
    Statement.ofLine line = readWord w >>= fun l =>
      if l.kind.isWide = wide then .ok (some ⟨op, .constant l⟩)
      else .error (.invalidLiteral w) := by
  have hoperand : readOperand op [.word w] = readConstantOperand op.mnemonic wide [.word w] := by
    unfold readOperand
    dsimp only
    rw [hop]
    cases wide <;> rfl
  rw [Statement.ofLine_of_instruction h (List.forall_mem_singleton.2 hw), hoperand]
  unfold readConstantOperand
  dsimp only
  rw [takeConstant_singleton]
  cases readWord w with
  | error p => rfl
  | ok l =>
    simp only [Except.map, bind, Except.bind, expectEnd]
    by_cases hwide : l.kind.isWide = wide
    · rw [if_pos hwide, if_pos hwide]
      rfl
    · rw [if_neg hwide, if_neg hwide]
      rfl

/-- A word that is not read is refused wherever it stands alone, for the same reason. -/
structure Refused (w : String) (p : Problem) : Prop where
  value : ∀ text : String, Layout [.word w] text.toList → readValue text = .error ⟨1, p⟩
  operand : ∀ (op : Opcode) (wide : Bool) (line : List Char), op.TakesConstant wide →
    Layout [.word op.mnemonic, .word w] line → Statement.ofLine line = .error p

/-- A word that is read as no literal is refused as an operand and as a value. -/
theorem refused_of_readWord {p : Problem} (hw : IsWord w) (h : readWord w = .error p) :
    Refused w p := by
  constructor
  · intro text htext
    rw [readValue_of_word htext hw, h]
    rfl
  · intro op wide line hop hline
    rw [ofLine_of_word hop hline hw, h]
    rfl

/-- A word is read as a value exactly if it is read as a literal. -/
theorem readValue_eq_ok_iff (h : Layout [.word w] text.toList) (hw : IsWord w) :
    readValue text = .ok l ↔ WordReads w l := by
  rw [readValue_of_word h hw, ← readWord_eq_ok_iff]
  cases readWord w <;> simp [Except.mapError]

/-- A line with a constant is read exactly if its word is, as a literal of the right width. -/
theorem ofLine_eq_ok_iff (hop : op.TakesConstant wide)
    (h : Layout [.word op.mnemonic, .word w] line) (hw : IsWord w) :
    Statement.ofLine line = .ok s ↔
      ∃ l, WordReads w l ∧ l.kind.isWide = wide ∧ s = some ⟨op, .constant l⟩ := by
  rw [ofLine_of_word hop h hw]
  simp only [← readWord_eq_ok_iff]
  cases readWord w with
  | error p => simp [bind, Except.bind]
  | ok l =>
    by_cases hwide : l.kind.isWide = wide
    · simp [bind, Except.bind, hwide, eq_comm]
    · simp [bind, Except.bind, hwide]

end Assembly

end StackMachine
