import Mathlib.Data.List.Forall2
import StackMachine.Proofs.Statements

/-!
# Disassembling and assembling again

A block whose operands fit their opcodes comes back from its text, instruction by
instruction. The objects of constants are made anew, one for each place in the block, and
the payloads of NaNs are lost. The text of a block that holds an array is not accepted.
-/

namespace StackMachine

/-- The objects of a heap are on the other as well, at the same addresses. -/
def Heap.Extends (h h' : Heap) : Prop := ∀ r o, h.object? r = some o → h'.object? r = some o

/-- A constant that its text gives back: it is wide or is not, as it has to be, and if it
refers to an object, that is a string or a class which has a word for its name. -/
def Value.Fits (h : Heap) (wide : Bool) (v : Value) : Prop :=
  v.kind.isWide = wide ∧
    match v with
    | .reference r =>
      r = .null ∨ (∃ s, h.object? r = some (.string s)) ∨
        ∃ name, h.object? r = some (.className name) ∧ Assembly.IsWord name
    | _ => True

namespace Block

/-- Every operand fits its opcode. -/
def WellFormed (h : Heap) (block : Block) : Prop :=
  ∀ i ∈ block, i.operand.Fits (Value.Fits h) i.opcode.shape

/-- Some constant is an array. -/
def HoldsArray (h : Heap) (block : Block) : Prop :=
  ∃ i ∈ block, ∃ r a, i.operand = .constant (.reference r) ∧ h.object? r = some (.array a)

end Block

/-- What a constant comes back as: the same number, a NaN for a NaN, null for null, and for
another reference one to a new object, which holds the same. -/
inductive Value.Restored (h h' : Heap) : Value → Value → Prop
  | int (n : Int32) : Restored h h' (.int n) (.int n)
  | long (n : Int64) : Restored h h' (.long n) (.long n)
  | float {x : Single} (hx : ¬ x.isNaN) : Restored h h' (.float x) (.float x)
  | floatNaN {x y : Single} (hx : x.isNaN) (hy : y.isNaN) : Restored h h' (.float x) (.float y)
  | double {x : Double} (hx : ¬ x.isNaN) : Restored h h' (.double x) (.double x)
  | doubleNaN {x y : Double} (hx : x.isNaN) (hy : y.isNaN) :
      Restored h h' (.double x) (.double y)
  | null : Restored h h' (.reference .null) (.reference .null)
  | object {r r' : Reference} {o : Object} (hr : h.object? r = some o) (hnew : h.object? r' = none)
      (hr' : h'.object? r' = some o) : Restored h h' (.reference r) (.reference r')

/-- What an operand comes back as: the same, except for constants. -/
inductive Operand.Restored (h h' : Heap) : Operand Value → Operand Value → Prop
  | constant {v w : Value} (hv : v.Restored h h' w) : Restored h h' (.constant v) (.constant w)
  | same {o : Operand Value} (ho : ∀ v, o ≠ .constant v) : Restored h h' o o

namespace Instruction

/-- What an instruction comes back as. -/
def Restored (h h' : Heap) (i j : Instruction Value) : Prop :=
  j.opcode = i.opcode ∧ i.operand.Restored h h' j.operand

/-- The address in the constant of an instruction, if there is one. -/
def address? (i : Instruction Value) : Option Nat :=
  match i.operand with
  | .constant (.reference (.to address)) => some address
  | _ => none

end Instruction

/-! ### Text and statements -/

namespace Assembly

/-- What is shown of a reference is shown of its object. -/
theorem ofValue_of_object? {h : Heap} {r : Reference} {o : Object} (ho : h.object? r = some o) :
    Literal.ofValue h (.reference r) = .ofObject o := by
  change ((h.object? r).map Literal.ofObject).getD .null = _
  rw [ho]
  rfl

/-- What is shown of a value that fits a width fits it. -/
theorem fits_ofValue {h : Heap} {wide : Bool} {v : Value} (hv : v.Fits h wide) :
    (Literal.ofValue h v).Fits wide := by
  obtain ⟨hwide, hv⟩ := hv
  cases v with
  | reference r =>
    rcases hv with rfl | ⟨s, hs⟩ | ⟨name, hname, hword⟩
    · exact ⟨hwide, trivial⟩
    · rw [ofValue_of_object? hs]
      exact ⟨hwide, trivial⟩
    · rw [ofValue_of_object? hname]
      exact ⟨hwide, hword⟩
  | _ => exact ⟨hwide, trivial⟩

/-- What is shown of an instruction of a well-formed block fits its opcode. -/
theorem fits_shown {h : Heap} {block : Block} (hblock : block.WellFormed h)
    {i : Instruction Value} (hi : i ∈ block) : Statement.Fits (i.shown h) :=
  (hblock i hi).map fun _ _ => fits_ofValue

/-- The lines of statements are read as the statements. -/
theorem readLines_texts {ss : List Statement} (h : ∀ s ∈ ss, s.Fits) (number : Nat) :
    readLines number (ss.map fun s => (s.text Literal.text).toList) =
      .ok (ss.map fun s => s.map Literal.canonical) := by
  induction ss generalizing number with
  | nil => rfl
  | cons s ss ih =>
    have hss : ∀ s ∈ ss, s.Fits := fun s hs => h s (List.mem_cons_of_mem _ hs)
    rw [List.map_cons, readLines, Statement.ofLine_text (h s (List.mem_cons_self ..))]
    simp only [bind, Except.bind, ih hss]
    rfl

/-- Every line of those that are read has a statement or none, but no problem. -/
theorem exists_ofLine_of_readLines {lines : List (List Char)} {number : Nat}
    {ss : List Statement} (h : readLines number lines = .ok ss) :
    ∀ line ∈ lines, ∃ s, Statement.ofLine line = .ok s := by
  induction lines generalizing number ss with
  | nil => exact List.forall_mem_nil _
  | cons line lines ih =>
    rw [readLines] at h
    split at h
    · cases h
    · rename_i s hs
      cases hrest : readLines (number + 1) lines with
      | error e =>
        rw [hrest] at h
        cases h
      | ok rest => exact List.forall_mem_cons.2 ⟨⟨s, hs⟩, ih hrest⟩

/-- The text of a block is read as its instructions, with constants as literals. -/
theorem read_disassemble {h : Heap} {block : Block} (hblock : block.WellFormed h) :
    read (disassemble h block) =
      .ok (block.map fun i => (i.shown h).map Literal.canonical) := by
  have hfits : ∀ s ∈ block.map (Instruction.shown h), Statement.Fits s := by
    intro s hs
    obtain ⟨i, hi, rfl⟩ := List.mem_map.1 hs
    exact fits_shown hblock hi
  have hinline : ∀ t ∈ block.map (Instruction.shownText h), ∀ c ∈ t.toList, Text.IsInline c := by
    intro t ht
    obtain ⟨i, hi, rfl⟩ := List.mem_map.1 ht
    exact Statement.isInline_text (fits_shown hblock hi)
  have hlines := Text.lines_join hinline
  rw [List.map_map] at hlines
  have hread := readLines_texts hfits 1
  rw [List.map_map, List.map_map] at hread
  unfold read disassemble
  exact (congrArg (readLines 1) (hlines.trans (List.map_map ..))).trans hread

/-- The text of a block that holds an array is not read. -/
theorem read_disassemble_array {h : Heap} {block : Block} (hblock : block.HoldsArray h) :
    ∃ e, read (disassemble h block) = .error e := by
  obtain ⟨i, hi, r, a, hoperand, ha⟩ := hblock
  have hshown : (i.shown h).operand = .constant (.array a.declared a.length) := by
    change i.operand.map (Literal.ofValue h) = _
    rw [hoperand]
    exact congrArg Operand.constant (ofValue_of_object? ha)
  have hinline : ∀ c ∈ (i.shownText h).toList, Text.IsInline c := Statement.isInline_array hshown
  have hline := Text.mem_lines_join (List.mem_map_of_mem (f := Instruction.shownText h) hi) hinline
  rw [List.map_map] at hline
  cases hread : read (disassemble h block) with
  | error e => exact ⟨e, rfl⟩
  | ok ss =>
    obtain ⟨s, hs⟩ := exists_ofLine_of_readLines hread _ hline
    obtain ⟨p, hp⟩ := Statement.ofLine_array hshown
    have hne := hs.symm.trans hp
    cases hne

end Assembly

/-! ### Loading -/

namespace Heap

variable {h h' h'' : Heap}

theorem Extends.refl (h : Heap) : h.Extends h := fun _ _ ho => ho

theorem Extends.trans (hext : h.Extends h') (hext' : h'.Extends h'') : h.Extends h'' :=
  fun r o ho => hext' r o (hext r o ho)

/-- A new object leaves the others where they are. -/
theorem Extends.alloc (h : Heap) (o : Object) : h.Extends (h.alloc o).2 := by
  intro r o' ho'
  cases r with
  | null => cases ho'
  | _ address =>
    obtain ⟨hlt, heq⟩ := Array.getElem?_eq_some_iff.1 ho'
    change (h.objects.push o)[address]? = some o'
    rw [Array.getElem?_push_lt hlt, heq]

/-- An extended heap has as many objects at least. -/
theorem Extends.size_le (hext : h.Extends h') : h.objects.size ≤ h'.objects.size := by
  by_contra hlt
  rw [Nat.not_le] at hlt
  have hobject := hext (.to h'.objects.size) _ (Array.getElem?_eq_getElem hlt)
  have hnone : h'.object? (.to h'.objects.size) = none := Array.getElem?_eq_none (Nat.le_refl _)
  rw [hnone] at hobject
  cases hobject

/-- The address that is used next holds nothing on a smaller heap. -/
theorem Extends.object?_size (hext : h.Extends h') : h.object? (.to h'.objects.size) = none :=
  Array.getElem?_eq_none hext.size_le

end Heap

namespace Assembly

variable {h h₁ : Heap}

/-- A constant is read back: its literal is loaded, which restores it, whatever is added to
the heap later, and makes at most one object. -/
structure Reload (h h₁ : Heap) (v w : Value) (h₂ : Heap) : Prop where
  load : (Literal.ofValue h v).canonical.load h₁ = (w, h₂)
  extended : h₁.Extends h₂
  restored : ∀ h', h₂.Extends h' → v.Restored h h' w
  address : ∀ address, w = .reference (.to address) →
    h₁.objects.size ≤ address ∧ address < h₂.objects.size

/-- Values that refer to no object are read back without the heap. -/
theorem Reload.of_plain {v w : Value}
    (load : (Literal.ofValue h v).canonical.load h₁ = (w, h₁))
    (restored : ∀ h', v.Restored h h' w) (plain : ∀ address, w ≠ .reference (.to address)) :
    Reload h h₁ v w h₁ where
  load := load
  extended := .refl h₁
  restored h' _ := restored h'
  address address he := absurd he (plain address)

/-- A new object is read back for an object that shows the same. -/
theorem Reload.of_object (hext : h.Extends h₁) {r : Reference} {o : Object}
    (ho : h.object? r = some o)
    (hload : (Literal.ofObject o).canonical.load h₁ =
      (.reference (h₁.alloc o).1, (h₁.alloc o).2)) :
    Reload h h₁ (.reference r) (.reference (h₁.alloc o).1) (h₁.alloc o).2 where
  load := (ofValue_of_object? ho).symm ▸ hload
  extended := .alloc h₁ o
  restored h' hext' := .object ho hext.object?_size (hext' _ _ (h₁.object?_alloc o))
  address address he := by
    obtain rfl : h₁.objects.size = address := by simpa [Heap.alloc] using he
    refine ⟨Nat.le_refl _, ?_⟩
    simp [Heap.alloc]

/-- A constant that fits is read back. -/
theorem exists_reload (hext : h.Extends h₁) {wide : Bool} {v : Value} (hv : v.Fits h wide) :
    ∃ w h₂, Reload h h₁ v w h₂ := by
  cases v with
  | int n => exact ⟨_, _, .of_plain rfl (fun _ => .int n) (by simp)⟩
  | long n => exact ⟨_, _, .of_plain rfl (fun _ => .long n) (by simp)⟩
  | float x =>
    refine ⟨.float x.canonical, _, .of_plain rfl (fun _ => ?_) (by simp)⟩
    unfold Binary.canonical
    split
    · rename_i hx
      exact .floatNaN hx (by decide)
    · rename_i hx
      exact .float hx
  | double x =>
    refine ⟨.double x.canonical, _, .of_plain rfl (fun _ => ?_) (by simp)⟩
    unfold Binary.canonical
    split
    · rename_i hx
      exact .doubleNaN hx (by decide)
    · rename_i hx
      exact .double hx
  | reference r =>
    rcases hv.2 with rfl | ⟨s, hs⟩ | ⟨name, hname, -⟩
    · exact ⟨.reference .null, _, .of_plain rfl (fun _ => .null) (by simp)⟩
    · exact ⟨_, _, .of_object hext hs rfl⟩
    · exact ⟨_, _, .of_object hext hname rfl⟩

/-- What holds of the constants of operands holds of the operands. -/
theorem exists_loadOperand (hext : h.Extends h₁) {shape : Shape} {o : Operand Value}
    (ho : o.Fits (Value.Fits h) shape) :
    ∃ p h₂, loadOperand h₁ ((o.map (Literal.ofValue h)).map Literal.canonical) = (p, h₂) ∧
      h₁.Extends h₂ ∧ (∀ h', h₂.Extends h' → o.Restored h h' p) ∧
      ∀ op address, Instruction.address? ⟨op, p⟩ = some address →
        h₁.objects.size ≤ address ∧ address < h₂.objects.size := by
  have hsame {o : Operand Value} (ho : ∀ v, o ≠ .constant v) :
      ∀ h', h₁.Extends h' → o.Restored h h' o := fun _ _ => .same ho
  cases o with
  | constant v =>
    have hv : ∃ wide, v.Fits h wide := by
      cases shape with
      | constant => exact ⟨_, ho⟩
      | wideConstant => exact ⟨_, ho⟩
      | _ => exact ho.elim
    obtain ⟨wide, hv⟩ := hv
    obtain ⟨w, h₂, hreload⟩ := exists_reload hext hv
    refine ⟨.constant w, h₂, ?_, hreload.extended,
      fun h' hext' => .constant (hreload.restored h' hext'), ?_⟩
    · rw [Operand.map, Operand.map, loadOperand, hreload.load]
    · intro op address ha
      refine hreload.address address ?_
      unfold Instruction.address? at ha
      split at ha
      · rename_i hoperand
        cases ha
        exact Operand.constant.inj hoperand
      · cases ha
  | _ =>
    refine ⟨_, _, rfl, .refl h₁, hsame ?_, ?_⟩
    · intro v hv
      cases hv
    · intro op address ha
      cases ha

/-- Loading the statements of a block restores the block, with constants at ascending
addresses that are not in use before. -/
theorem exists_load_block {block : Block} (hblock : block.WellFormed h) (hext : h.Extends h₁) :
    ∃ block' h', load h₁ (block.map fun i => (i.shown h).map Literal.canonical) = (block', h') ∧
      h₁.Extends h' ∧ List.Forall₂ (Instruction.Restored h h') block block' ∧
      (block'.filterMap Instruction.address?).Pairwise (· < ·) ∧
      ∀ address ∈ block'.filterMap Instruction.address?, h₁.objects.size ≤ address := by
  induction block generalizing h₁ with
  | nil => exact ⟨[], h₁, rfl, .refl h₁, .nil, .nil, List.forall_mem_nil _⟩
  | cons i block ih =>
    obtain ⟨p, h₂, hload, hext', hrestored, haddress⟩ :=
      exists_loadOperand hext (hblock i (List.mem_cons_self ..))
    obtain ⟨block', h', hloads, hext'', hblocks, hascending, hnew⟩ :=
      ih (fun j hj => hblock j (List.mem_cons_of_mem _ hj)) (hext.trans hext')
    refine ⟨⟨i.opcode, p⟩ :: block', h', ?_, hext'.trans hext'',
      .cons ⟨rfl, hrestored h' hext''⟩ hblocks, ?_⟩
    · rw [List.map_cons, load]
      simp only [Instruction.shown, Instruction.map, hload] at hloads ⊢
      rw [hloads]
    · cases ha : Instruction.address? ⟨i.opcode, p⟩ with
      | none =>
        rw [List.filterMap_cons_none ha]
        exact ⟨hascending, fun b hb => Nat.le_trans hext'.size_le (hnew b hb)⟩
      | some address =>
        obtain ⟨hle, hlt⟩ := haddress _ _ ha
        rw [List.filterMap_cons_some ha]
        refine ⟨.cons (fun b hb => Nat.lt_of_lt_of_le hlt (hnew b hb)) hascending, ?_⟩
        exact List.forall_mem_cons.2 ⟨hle, fun b hb => Nat.le_trans hext'.size_le (hnew b hb)⟩

end Assembly

/-- A well-formed block comes back from its text: every instruction is the same, except that
string and class constants are new objects, each another one, with the same contents, and
that NaNs may have another payload. The text of a block that holds an array does not come
back. -/
theorem assemble_disassemble (h : Heap) (block : Block) :
    (block.WellFormed h → ∃ block' h', assemble h (disassemble h block) = .ok (block', h') ∧
      h.Extends h' ∧ List.Forall₂ (Instruction.Restored h h') block block' ∧
      (block'.filterMap Instruction.address?).Nodup) ∧
    (block.HoldsArray h → ∃ e, assemble h (disassemble h block) = .error e) := by
  constructor
  · intro hblock
    obtain ⟨block', h', hload, hext, hrestored, hascending, -⟩ :=
      Assembly.exists_load_block hblock (.refl h)
    refine ⟨block', h', ?_, hext, hrestored, hascending.imp fun hlt => Nat.ne_of_lt hlt⟩
    rw [assemble, Assembly.read_disassemble hblock]
    exact congrArg Except.ok hload
  · intro hblock
    obtain ⟨e, he⟩ := Assembly.read_disassemble_array hblock
    refine ⟨e, ?_⟩
    rw [assemble, he]
    rfl

/-- A block with constants of every sort, a slot, a branch and the names of a field and a
method comes back; one that pushes an array does not. -/
theorem assemble_disassemble_constants :
    let h : Heap := ⟨#[.string "a\n\"b\"", .className "c/D", .array (.zeroed .int 3)]⟩
    let block : Block :=
      [⟨.ldc, .constant (.reference (.to 0))⟩, ⟨.ldcWide, .constant (.reference (.to 1))⟩,
        ⟨.ldc, .constant (.float .nan)⟩, ⟨.ldc2, .constant (.long (-1))⟩,
        ⟨.sipush, .immediate 300⟩, ⟨.store .int none, .slot 4⟩, ⟨.ifZero .eq, .branch (-6)⟩,
        ⟨.putstatic, .field ⟨"f", .int⟩⟩, ⟨.invokestatic, .method ⟨"m", [.int], none⟩⟩]
    let holding : Block := [⟨.ldc, .constant (.reference (.to 2))⟩]
    (block.WellFormed h ∧ ∃ block' h', assemble h (disassemble h block) = .ok (block', h') ∧
      h.Extends h' ∧ List.Forall₂ (Instruction.Restored h h') block block' ∧
      (block'.filterMap Instruction.address?).Nodup) ∧
    holding.HoldsArray h ∧ ∃ e, assemble h (disassemble h holding) = .error e := by
  intro h block holding
  have hblock : block.WellFormed h := by
    simp only [block, Block.WellFormed, List.forall_mem_cons, Opcode.shape, Operand.Fits]
    refine ⟨?_, ?_, ?_, ?_, ?_, trivial, trivial, ?_, ?_, ?_⟩
    · exact ⟨rfl, .inr (.inl ⟨_, rfl⟩)⟩
    · refine ⟨rfl, .inr (.inr ⟨_, rfl, ?_⟩)⟩
      decide
    · exact ⟨rfl, trivial⟩
    · exact ⟨rfl, trivial⟩
    · decide
    · decide
    · decide
    · exact List.forall_mem_nil _
  have hholding : holding.HoldsArray h := ⟨_, List.mem_singleton_self _, _, _, rfl, rfl⟩
  exact ⟨⟨hblock, (assemble_disassemble h block).1 hblock⟩, hholding,
    (assemble_disassemble h holding).2 hholding⟩

end StackMachine
