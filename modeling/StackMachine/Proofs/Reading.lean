import Mathlib.Data.List.TakeWhile
import StackMachine.Proofs.Effects
import StackMachine.Proofs.Roundtrip

/-!
# What is read can be written

However a text spells its statements, what the reader makes of it is of a narrow sort:
names are words, immediates are in range, constants are as wide as their opcodes want, no
constant is an array, and each format has one NaN. Statements of that sort are read from
their own text again, and the block that they become is well-formed and shows them.
-/

namespace StackMachine

/-! ### Numbers -/

namespace Binary

variable {f : Format}

/-- No magnitude up to that of the infinities is a NaN. -/
theorem canonical_ofParts (negative : Bool) {magnitude : Nat} (h : magnitude ≤ f.infinity) :
    (ofParts negative magnitude : Binary f).canonical = ofParts negative magnitude := by
  have hmod : magnitude % f.size = magnitude :=
    Nat.mod_eq_of_lt (Nat.lt_of_le_of_lt h f.infinity_lt_size)
  refine if_neg ?_
  simp only [isNaN, ofParts, hmod, decide_eq_true_eq]
  exact Nat.not_lt.2 h

@[simp] theorem canonical_nan : (nan : Binary f).canonical = nan := by
  unfold canonical
  split <;> rfl

@[simp] theorem canonical_infinity (negative : Bool) :
    (infinity negative : Binary f).canonical = infinity negative :=
  canonical_ofParts negative (Nat.le_refl _)

/-- No decimal number is read as a NaN. -/
@[simp] theorem canonical_ofDecimal (d : Decimal) :
    (ofDecimal d : Binary f).canonical = ofDecimal d := by
  unfold ofDecimal
  split
  · exact canonical_ofParts d.negative (Nat.zero_le _)
  · split
    · exact canonical_infinity d.negative
    · split
      · exact canonical_ofParts d.negative (Nat.zero_le _)
      · exact canonical_ofParts d.negative (f.nearest_le_infinity ..)

end Binary

namespace Assembly

variable {f : Format}

/-- A number that is read is canonical, also if it is a NaN. -/
theorem canonical_of_readBinary? {cs : List Char} {x : Binary f} (h : readBinary? cs = some x) :
    x.canonical = x := by
  unfold readBinary? at h
  split at h
  · cases h
    exact Binary.canonical_nan
  · split at h
    · cases h
      exact Binary.canonical_infinity false
    · split at h
      · cases h
        exact Binary.canonical_infinity true
      · obtain ⟨d, -, rfl⟩ := Option.map_eq_some_iff.1 h
        exact Binary.canonical_ofDecimal d

end Assembly

/-! ### Constants -/

namespace Operand

variable {α : Type}

theorem map_id (o : Operand α) : o.map id = o := by cases o <;> rfl

/-- A change of constants that leaves those alone that fit changes nothing. -/
theorem map_of_fits {P : Bool → α → Prop} {g : α → α} {shape : Shape} {o : Operand α}
    (h : o.Fits P shape) (hconstant : ∀ wide c, P wide c → g c = c) : o.map g = o := by
  cases o with
  | constant c =>
    cases shape with
    | constant => exact congrArg constant (hconstant _ _ h)
    | wideConstant => exact congrArg constant (hconstant _ _ h)
    | _ => exact h.elim
  | _ => rfl

end Operand

/-- A literal that is read from its own text: it fits, and if it is a NaN it is that which
is read for one. -/
def Literal.Stable (wide : Bool) (l : Literal) : Prop := l.Fits wide ∧ l.canonical = l

namespace Assembly

open Numeral

variable {cs : List Char} {l : Literal} {w : String}

/-- An int that is read is given back by its text. -/
theorem stable_of_intLiteral? (h : intLiteral? cs = some l) : l.Stable l.kind.isWide := by
  obtain ⟨n, -, h⟩ := Option.bind_eq_some_iff.1 h
  split at h <;> cases h
  exact ⟨⟨rfl, trivial⟩, rfl⟩

theorem stable_of_longLiteral? (h : longLiteral? cs = some l) : l.Stable l.kind.isWide := by
  obtain ⟨n, -, h⟩ := Option.bind_eq_some_iff.1 h
  split at h <;> cases h
  exact ⟨⟨rfl, trivial⟩, rfl⟩

/-- A hexadecimal number that is read is given back by its text, which is decimal. -/
theorem stable_of_hexLiteral? {negative : Bool} (h : hexLiteral? negative cs = some l) :
    l.Stable l.kind.isWide := by
  unfold hexLiteral? at h
  split at h <;> obtain ⟨n, -, h⟩ := Option.bind_eq_some_iff.1 h <;> split at h <;> cases h
  · exact ⟨⟨rfl, trivial⟩, rfl⟩
  · exact ⟨⟨rfl, trivial⟩, rfl⟩

/-- A float that is read is given back by its text. -/
theorem stable_of_float (h : (readBinary? cs).map Literal.float = some l) :
    l.Stable l.kind.isWide := by
  obtain ⟨x, hx, rfl⟩ := Option.map_eq_some_iff.1 h
  exact ⟨⟨rfl, trivial⟩, congrArg Literal.float (canonical_of_readBinary? hx)⟩

theorem stable_of_double (h : (readBinary? cs).map Literal.double = some l) :
    l.Stable l.kind.isWide := by
  obtain ⟨x, hx, rfl⟩ := Option.map_eq_some_iff.1 h
  exact ⟨⟨rfl, trivial⟩, congrArg Literal.double (canonical_of_readBinary? hx)⟩

/-- However a number is spelled, the literal is one that its text gives back. -/
theorem stable_of_numberLiteral? (h : numberLiteral? cs = some l) : l.Stable l.kind.isWide := by
  unfold numberLiteral? at h
  dsimp only at h
  split at h
  · exact stable_of_hexLiteral? h
  · exact stable_of_hexLiteral? h
  · split at h
    · exact stable_of_longLiteral? h
    · split at h
      · exact stable_of_float h
      · split at h
        · exact stable_of_double h
        · split at h
          · exact stable_of_double h
          · exact stable_of_intLiteral? h

/-- Whatever number is read, its text gives it back. -/
theorem stable_of_readNumber (h : readNumber w = .ok l) : l.Stable l.kind.isWide := by
  unfold readNumber at h
  split at h
  · split at h
    · rename_i hl
      cases h
      exact stable_of_numberLiteral? hl
    · cases h
  · cases h

/-! ### Tokens -/

/-- The tokens of a line can be told apart when they are written. -/
theorem Token.isPlain_of_scan {ts : List Token} (h : Token.scan cs = .ok ts) :
    ∀ t ∈ ts, t.IsPlain := by
  fun_induction Token.scan cs generalizing ts with
  | case1 =>
    cases h
    exact List.forall_mem_nil _
  | case2 c rest hblank ih => exact ih h
  | case3 =>
    cases h
    exact List.forall_mem_nil _
  | case4 => cases h
  | case5 rest s after hread hblank hcomment ih =>
    obtain ⟨ts', hts', h⟩ := exists_of_bind_ok h
    cases h
    exact List.forall_mem_cons.2 ⟨trivial, ih hts'⟩
  | case6 c rest hblank hcomment hquote ih =>
    obtain ⟨ts', hts', h⟩ := exists_of_bind_ok h
    cases h
    refine List.forall_mem_cons.2 ⟨?_, ih hts'⟩
    have hc : isWordChar c := by simp [isWordChar, hblank, hquote]
    refine ⟨?_, ?_, ?_⟩
    · intro he
      have := congrArg String.toList he
      rw [String.toList_ofList] at this
      cases this
    · rw [String.toList_ofList]
      exact List.forall_mem_cons.2 ⟨hc, fun d hd => List.mem_takeWhile_imp hd⟩
    · rw [String.toList_ofList, List.head?_cons]
      exact fun he => hcomment (Option.some.inj he)

/-! ### Operands -/

variable {owner : String} {expected : Nat} {ts rest : List Token}

theorem takeWord_ok (h : takeWord owner expected ts = .ok (w, rest)) : ts = .word w :: rest := by
  unfold takeWord at h
  split at h <;> cases h
  rfl

/-- A number that is taken lies between the bounds. -/
theorem takeInt_ok {lo hi n : Int} (h : takeInt lo hi owner expected ts = .ok (n, rest)) :
    lo ≤ n ∧ n ≤ hi := by
  obtain ⟨⟨w, rest'⟩, -, h⟩ := exists_of_bind_ok h
  dsimp only at h
  split at h
  · split at h
    · rename_i hrange
      cases h
      exact hrange
    · cases h
  · cases h

/-- A constant is one that its text gives back. -/
theorem stable_of_takeConstant (hts : ∀ t ∈ ts, t.IsPlain) (h : takeConstant ts = .ok (l, rest)) :
    l.Stable l.kind.isWide := by
  unfold takeConstant at h
  split at h
  · cases h
  · cases h
    exact ⟨⟨rfl, trivial⟩, rfl⟩
  · split at h
    · cases h
      exact ⟨⟨rfl, trivial⟩, rfl⟩
    · split at h
      · obtain ⟨⟨name, rest'⟩, hname, h⟩ := exists_of_bind_ok h
        cases h
        rw [takeWord_ok hname, List.forall_mem_cons, List.forall_mem_cons] at hts
        exact ⟨⟨rfl, hts.2.1⟩, rfl⟩
      · obtain ⟨l', hl, h⟩ := exists_of_bind_ok h
        cases h
        exact stable_of_readNumber hl

/-- A constant operand that is read is a literal as wide as it has to be, which its text gives
back. -/
theorem readConstantOperand_ok {mnemonic : String} {wide : Bool} {o : Operand Literal}
    (hts : ∀ t ∈ ts, t.IsPlain) (h : readConstantOperand mnemonic wide ts = .ok o) :
    ∃ l, o = .constant l ∧ l.Stable wide := by
  unfold readConstantOperand at h
  split at h
  · cases h
  · obtain ⟨⟨l, rest'⟩, hl, h⟩ := exists_of_bind_ok h
    obtain ⟨_, -, h⟩ := exists_of_bind_ok h
    split at h
    · rename_i hwide
      cases h
      exact ⟨l, rfl, hwide ▸ stable_of_takeConstant hts hl⟩
    · cases h

/-- An operand that is read fits the opcode that it is read for, and its constant is one
that its text gives back. -/
theorem fits_of_readOperand {op : Opcode} {o : Operand Literal} (hts : ∀ t ∈ ts, t.IsPlain)
    (h : readOperand op ts = .ok o) : o.Fits Literal.Stable op.shape := by
  have hname {name : String} {rest : List Token}
      (h : takeWord op.mnemonic 2 ts = .ok (name, rest)) :
      IsWord name := by
    rw [takeWord_ok h, List.forall_mem_cons] at hts
    exact hts.1
  unfold readOperand at h
  dsimp only at h
  generalize op.shape = shape at h ⊢
  cases shape with
  | none =>
    obtain ⟨_, -, h⟩ := exists_of_bind_ok h
    cases h
    trivial
  | slot | branch =>
    obtain ⟨_, -, h⟩ := exists_of_bind_ok h
    obtain ⟨_, -, h⟩ := exists_of_bind_ok h
    cases h
    trivial
  | byte =>
    obtain ⟨⟨n, rest'⟩, hn, h⟩ := exists_of_bind_ok h
    obtain ⟨_, -, h⟩ := exists_of_bind_ok h
    cases h
    obtain ⟨hlo, hhi⟩ := takeInt_ok hn
    have hn : (Int32.ofInt n).toInt = n :=
      Int32.toInt_ofInt_of_le (Int.le_trans (by decide) hlo) (Int.lt_of_le_of_lt hhi (by decide))
    change Int8.minValue.toInt ≤ (Int32.ofInt n).toInt ∧ _
    rw [hn]
    exact ⟨hlo, hhi⟩
  | short =>
    obtain ⟨⟨n, rest'⟩, -, h⟩ := exists_of_bind_ok h
    obtain ⟨_, -, h⟩ := exists_of_bind_ok h
    cases h
    change Int16.minValue.toInt ≤ n.toInt32.toInt ∧ _
    rw [Int16.toInt_toInt32]
    exact ⟨n.minValue_le_toInt, n.toInt_le⟩
  | constant | wideConstant =>
    obtain ⟨l, rfl, hl⟩ := readConstantOperand_ok hts h
    exact hl
  | increment =>
    obtain ⟨_, -, h⟩ := exists_of_bind_ok h
    obtain ⟨_, -, h⟩ := exists_of_bind_ok h
    obtain ⟨_, -, h⟩ := exists_of_bind_ok h
    cases h
    trivial
  | elementKind =>
    obtain ⟨⟨w, rest'⟩, -, h⟩ := exists_of_bind_ok h
    dsimp only at h
    split at h
    · cases h
    · obtain ⟨_, -, h⟩ := exists_of_bind_ok h
      cases h
      trivial
  | field | method =>
    obtain ⟨⟨name, rest'⟩, hw, h⟩ := exists_of_bind_ok h
    obtain ⟨_, -, h⟩ := exists_of_bind_ok h
    split at h
    · cases h
    · obtain ⟨_, -, h⟩ := exists_of_bind_ok h
      cases h
      exact hname hw

/-! ### Statements -/

/-- A statement that is read from its own text. -/
def Statement.Stable (s : Statement) : Prop := s.operand.Fits Literal.Stable s.opcode.shape

variable {s : Statement}

/-- A statement that its text gives back fits its opcode. -/
theorem Statement.Stable.fits (h : s.Stable) : s.Fits := by
  have hfits := Operand.Fits.map (g := id) h fun _ _ hl => hl.1
  rwa [Operand.map_id] at hfits

/-- Its constants are canonical already. -/
theorem Statement.Stable.canonical (h : s.Stable) : s.map Literal.canonical = s :=
  congrArg (Instruction.mk s.opcode) (Operand.map_of_fits h fun _ _ hl => hl.2)

/-- A statement that is read from a line is given back by its text. -/
theorem Statement.stable_of_ofLine {line : List Char}
    (h : Statement.ofLine line = .ok (some s)) : s.Stable := by
  obtain ⟨ts, hts, h⟩ := exists_of_bind_ok h
  unfold ofTokens at h
  split at h
  · cases h
  · cases h
  · rename_i w args
    have hargs := (List.forall_mem_cons.1 (Token.isPlain_of_scan hts)).2
    split at h
    · cases h
    · obtain ⟨o, ho, h⟩ := exists_of_bind_ok h
      cases h
      exact fits_of_readOperand hargs ho

theorem stable_of_readLines {lines : List (List Char)} {number : Nat} {ss : List Statement}
    (h : readLines number lines = .ok ss) : ∀ s ∈ ss, s.Stable := by
  induction lines generalizing number ss with
  | nil =>
    cases h
    exact List.forall_mem_nil _
  | cons line lines ih =>
    rw [readLines] at h
    split at h
    · cases h
    · rename_i s? hs
      obtain ⟨ss', hss', h⟩ := exists_of_bind_ok h
      cases h
      refine List.forall_mem_append.2 ⟨?_, ih hss'⟩
      intro s hmem
      rw [Option.mem_toList] at hmem
      exact Statement.stable_of_ofLine (hmem ▸ hs)

/-- What is read from any text is read from its own text. -/
theorem stable_of_read {text : String} {ss : List Statement} (h : read text = .ok ss) :
    ∀ s ∈ ss, s.Stable :=
  stable_of_readLines h

/-! ### Loading -/

variable {h h' : Heap}

/-- Loading a literal adds to the heap, and changes no object. -/
theorem extends_loadLiteral (h : Heap) (l : Literal) : h.Extends (l.load h).2 := by
  cases l with
  | string | className | array => exact .alloc h _
  | _ => exact .refl h

/-- What a literal is loaded as shows the literal, whatever is added to the heap later. -/
theorem ofValue_load {l : Literal} (hext : (l.load h).2.Extends h') :
    Literal.ofValue h' (l.load h).1 = l := by
  cases l with
  | string | className | array => exact ofValue_of_object? (hext _ _ (h.object?_alloc _))
  | _ => rfl

/-- What a literal that fits is loaded as fits. -/
theorem fits_load {wide : Bool} {l : Literal} (hl : l.Fits wide)
    (hext : (l.load h).2.Extends h') : (l.load h).1.Fits h' wide := by
  refine ⟨(Literal.kind_load h l).symm ▸ hl.1, ?_⟩
  cases l with
  | null => exact .inl rfl
  | string s => exact .inr (.inl ⟨s, hext _ _ (h.object?_alloc _)⟩)
  | className name => exact .inr (.inr ⟨name, hext _ _ (h.object?_alloc _), hl.2⟩)
  | array => exact hl.2.elim
  | _ => trivial

/-- Loading an operand adds an object at most. -/
theorem extends_loadOperand (h : Heap) (o : Operand Literal) :
    h.Extends (loadOperand h o).2 := by
  cases o with
  | constant l => exact extends_loadLiteral h l
  | _ => exact .refl h

/-- A loaded operand says what it said, as long as its object is there. -/
theorem map_loadOperand {o : Operand Literal} (hext : (loadOperand h o).2.Extends h') :
    (loadOperand h o).1.map (Literal.ofValue h') = o := by
  cases o with
  | constant l => exact congrArg Operand.constant (ofValue_load hext)
  | _ => rfl

/-- A loaded operand fits an opcode if it did before. -/
theorem fits_loadOperand {shape : Shape} {o : Operand Literal} (ho : o.Fits Literal.Fits shape)
    (hext : (loadOperand h o).2.Extends h') :
    (loadOperand h o).1.Fits (Value.Fits h') shape := by
  cases o with
  | constant l =>
    cases shape with
    | constant => exact fits_load ho hext
    | wideConstant => exact fits_load ho hext
    | _ => exact ho.elim
  | _ => cases shape <;> exact ho

/-- Loading statements adds objects only. -/
theorem extends_load (h : Heap) (ss : List Statement) : h.Extends (load h ss).2 := by
  induction ss generalizing h with
  | nil => exact .refl h
  | cons s ss ih => exact (extends_loadOperand h s.operand).trans (ih _)

/-- A block shows the statements that it is loaded from. -/
theorem shown_load (h : Heap) (ss : List Statement) (hext : (load h ss).2.Extends h') :
    (load h ss).1.map (Instruction.shown h') = ss := by
  induction ss generalizing h with
  | nil => rfl
  | cons s ss ih =>
    have hrest := extends_load (loadOperand h s.operand).2 ss
    have hoperand := map_loadOperand (hrest.trans hext)
    exact List.cons_eq_cons.2 ⟨congrArg (Instruction.mk s.opcode) hoperand, ih _ hext⟩

/-- A block that is loaded from statements that fit is well-formed. -/
theorem wellFormed_load {ss : List Statement} (hss : ∀ s ∈ ss, s.Fits)
    (hext : (load h ss).2.Extends h') : Block.WellFormed h' (load h ss).1 := by
  induction ss generalizing h with
  | nil => exact List.forall_mem_nil _
  | cons s ss ih =>
    have hrest := extends_load (loadOperand h s.operand).2 ss
    rw [List.forall_mem_cons] at hss
    exact List.forall_mem_cons.2 ⟨fits_loadOperand hss.1 (hrest.trans hext), ih hss.2 hext⟩

end Assembly

/-! ### Assembling -/

section Assemble

variable {h h' : Heap} {text : String} {block : Block}

/-- Assembling is reading and then loading. -/
theorem assemble_ok_iff : assemble h text = .ok (block, h') ↔
    ∃ ss, Assembly.read text = .ok ss ∧ Assembly.load h ss = (block, h') := by
  unfold assemble
  cases Assembly.read text with
  | error e => exact ⟨nofun, nofun⟩
  | ok ss =>
    constructor
    · intro accepted
      exact ⟨ss, rfl, Except.ok.inj accepted⟩
    · rintro ⟨ss', hss', hload⟩
      obtain rfl := Except.ok.inj hss'
      exact congrArg Except.ok hload

/-- The block of a text that is accepted is well-formed. -/
theorem wellFormed_of_assemble (accepted : assemble h text = .ok (block, h')) :
    block.WellFormed h' := by
  obtain ⟨ss, hread, hload⟩ := assemble_ok_iff.1 accepted
  have hfits : ∀ s ∈ ss, s.Fits := fun s hs => (Assembly.stable_of_read hread s hs).fits
  have hblock := Assembly.wellFormed_load hfits (.refl (Assembly.load h ss).2)
  rwa [hload] at hblock

/-- The block of a text that is accepted shows nothing but statements that are read from
their own text. -/
theorem stable_of_assemble (accepted : assemble h text = .ok (block, h')) :
    ∀ i ∈ block, Assembly.Statement.Stable (i.shown h') := by
  obtain ⟨ss, hread, hload⟩ := assemble_ok_iff.1 accepted
  have hshown := Assembly.shown_load h ss (.refl _)
  rw [hload] at hshown
  intro i hi
  refine Assembly.stable_of_read hread _ ?_
  rw [← hshown]
  exact List.mem_map_of_mem hi

end Assemble

end StackMachine
