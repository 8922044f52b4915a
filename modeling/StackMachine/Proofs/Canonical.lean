import StackMachine.Proofs.Reading

/-!
# The canonical spelling

A text says what its block shows, and a block is written in one spelling. So to assemble a
text and to disassemble the block rewrites the text in that spelling, and to assemble what
comes of it changes nothing any more: it gives the same instructions, with new objects for
the constants that are objects, and again the same text.
-/

namespace StackMachine

/-- What a constant becomes when its text is assembled again: the same, bit by bit, unless
it refers to an object. Then it refers to a new object with the same contents, which is no
array. -/
inductive Value.Renewed (h h' : Heap) : Value → Value → Prop
  | same {v : Value} (plain : ∀ address, v ≠ .reference (.to address)) : Renewed h h' v v
  | object {r r' : Reference} {o : Object} (hr : h.object? r = some o)
      (hnew : h.object? r' = none) (hr' : h'.object? r' = some o) (noArray : ∀ a, o ≠ .array a) :
      Renewed h h' (.reference r) (.reference r')

/-- What an operand becomes when its text is assembled again: the same, except for
constants. -/
inductive Operand.Renewed (h h' : Heap) : Operand Value → Operand Value → Prop
  | constant {v w : Value} (hv : v.Renewed h h' w) : Renewed h h' (.constant v) (.constant w)
  | same {o : Operand Value} (ho : ∀ v, o ≠ .constant v) : Renewed h h' o o

/-- What an instruction becomes when its text is assembled again. -/
def Instruction.Renewed (h h' : Heap) (i j : Instruction Value) : Prop :=
  j.opcode = i.opcode ∧ i.operand.Renewed h h' j.operand

variable {h h' : Heap}

/-- A constant that fits and comes back as one that shows the same is renewed: not even the
payload of a NaN is another one. -/
theorem Value.Restored.renewed {wide : Bool} {v w : Value} (hvw : v.Restored h h' w)
    (hv : v.Fits h wide) (hshown : Literal.ofValue h v = Literal.ofValue h' w) :
    v.Renewed h h' w := by
  cases hvw with
  | int | long | float | double | null => exact .same (by simp)
  | floatNaN | doubleNaN =>
    cases hshown
    exact .same (by simp)
  | object hr hnew hr' =>
    refine .object hr hnew hr' ?_
    rintro a rfl
    rcases hv.2 with rfl | ⟨s, hs⟩ | ⟨name, hname, -⟩
    · cases hr
    · cases hr.symm.trans hs
    · cases hr.symm.trans hname

/-- An operand that is restored is the same, or a constant of a new object. -/
theorem Operand.Restored.renewed {shape : Shape} {o p : Operand Value} (hop : o.Restored h h' p)
    (ho : o.Fits (Value.Fits h) shape)
    (hshown : o.map (Literal.ofValue h) = p.map (Literal.ofValue h')) : o.Renewed h h' p := by
  cases hop with
  | constant hv =>
    have hshown := Operand.constant.inj hshown
    cases shape with
    | constant => exact .constant (hv.renewed ho hshown)
    | wideConstant => exact .constant (hv.renewed ho hshown)
    | _ => exact ho.elim
  | same ho' => exact .same ho'

/-- A well-formed block that comes back as one that shows the same is renewed. -/
theorem Block.renewed_of_restored {block block' : Block}
    (hrestored : List.Forall₂ (Instruction.Restored h h') block block')
    (hblock : block.WellFormed h)
    (hshown : block.map (Instruction.shown h) = block'.map (Instruction.shown h')) :
    List.Forall₂ (Instruction.Renewed h h') block block' := by
  induction hrestored with
  | nil => exact .nil
  | cons hij _ ih =>
    rw [Block.WellFormed, List.forall_mem_cons] at hblock
    obtain ⟨hi, hrest⟩ := List.cons_eq_cons.1 hshown
    exact .cons ⟨hij.1, hij.2.renewed hblock.1 (congrArg Instruction.operand hi)⟩
      (ih hblock.2 hrest)

/-- An instruction without an object among its constants is renewed as itself. -/
theorem Instruction.Renewed.eq {i j : Instruction Value} (hij : i.Renewed h h' j)
    (hi : i.address? = none) : j = i := by
  obtain ⟨op, o⟩ := i
  obtain ⟨op', p⟩ := j
  obtain ⟨rfl, hop⟩ := hij
  cases hop with
  | same => rfl
  | constant hv =>
    cases hv with
    | same => rfl
    | @object r r' o hr =>
      cases r with
      | null => cases hr
      | _ address => cases hi

/-- Without constants that are objects, a renewed block is the same block. -/
theorem Block.eq_of_renewed {block block' : Block}
    (hrenewed : List.Forall₂ (Instruction.Renewed h h') block block')
    (hplain : ∀ i ∈ block, i.address? = none) : block' = block := by
  induction hrenewed with
  | nil => rfl
  | cons hij _ ih =>
    rw [List.forall_mem_cons] at hplain
    exact List.cons_eq_cons.2 ⟨hij.eq hplain.1, ih hplain.2⟩

/-- The text of a block depends on what it shows only. -/
theorem disassemble_congr {block block' : Block}
    (hshown : block.map (Instruction.shown h) = block'.map (Instruction.shown h')) :
    disassemble h block = disassemble h' block' := by
  have hlines := congrArg (List.map fun s => s.text Literal.text ++ "\n") hshown
  rw [List.map_map, List.map_map] at hlines
  exact congrArg String.join hlines

/-- Assembling makes texts canonical. However a text that is accepted is spelled, the text of
its block is accepted too, and has itself as the text of its block. The instructions are the
same, except that string and class constants are new objects, each another one, with the same
contents; without such constants the block is the same. -/
theorem assemble_canonicalises {text : String} {block : Block}
    (accepted : assemble h text = .ok (block, h')) :
    ∃ block' h'', assemble h' (disassemble h' block) = .ok (block', h'') ∧
      disassemble h'' block' = disassemble h' block ∧
      h'.Extends h'' ∧ block'.length = block.length ∧
      List.Forall₂ (Instruction.Renewed h' h'') block block' ∧
      (block'.filterMap Instruction.address?).Nodup ∧
      ((∀ i ∈ block, i.address? = none) → block' = block) := by
  have hblock := wellFormed_of_assemble accepted
  have hstable := stable_of_assemble accepted
  obtain ⟨block', h'', hload, hext, hrestored, hascending, -⟩ :=
    Assembly.exists_load_block hblock (.refl h')
  -- The statements that are read the second time are those that the block shows.
  have hcanonical : block.map (fun i => (i.shown h').map Literal.canonical) =
      block.map (Instruction.shown h') :=
    List.map_congr_left fun i hi => (hstable i hi).canonical
  have hshown : block.map (Instruction.shown h') = block'.map (Instruction.shown h'') := by
    rw [hcanonical] at hload
    have hloaded := Assembly.shown_load h' (block.map (Instruction.shown h')) (.refl _)
    rw [hload] at hloaded
    exact hloaded.symm
  have hrenewed := Block.renewed_of_restored hrestored hblock hshown
  exact ⟨block', h'', assemble_ok_iff.2 ⟨_, Assembly.read_disassemble hblock, hload⟩,
    (disassemble_congr hshown).symm, hext, hrestored.length_eq.symm, hrenewed,
    hascending.imp fun hlt => Nat.ne_of_lt hlt, Block.eq_of_renewed hrenewed⟩

/-- A text in a spelling of its own, with a comment, odd blanks and numbers, a NaN, an escape
and a type code, is accepted and has a canonical one. -/
theorem assemble_canonicalises_spelling :
    let text := " ldc\t0X1f ; a comment\n\nldc2_w -0.5e3\r\nldc NaNF\nldc_w \"a\\u\x7be9\x7d\"\n" ++
      "ldc class A\nputstatic f [I\nnewarray 010\n"
    let block : Block :=
      [⟨.ldc, .constant (.int 31)⟩, ⟨.ldc2, .constant (.double (.ofDecimal ⟨true, 500, 0⟩))⟩,
        ⟨.ldc, .constant (.float .nan)⟩, ⟨.ldcWide, .constant (.reference (.to 0))⟩,
        ⟨.ldc, .constant (.reference (.to 1))⟩, ⟨.putstatic, .field ⟨"f", .reference⟩⟩,
        ⟨.newarray, .elementKind .int⟩]
    let heap : Heap := ⟨#[.string "aé", .className "A"]⟩
    assemble .empty text = .ok (block, heap) ∧
      ∃ block' heap', assemble heap (disassemble heap block) = .ok (block', heap') ∧
        disassemble heap' block' = disassemble heap block ∧
        heap.Extends heap' ∧ block'.length = block.length ∧
        List.Forall₂ (Instruction.Renewed heap heap') block block' ∧
        (block'.filterMap Instruction.address?).Nodup ∧
        ((∀ i ∈ block, i.address? = none) → block' = block) := by
  intro text block heap
  have hread : Assembly.read text = .ok
      [⟨.ldc, .constant (.int 31)⟩, ⟨.ldc2, .constant (.double (.ofDecimal ⟨true, 500, 0⟩))⟩,
        ⟨.ldc, .constant (.float .nan)⟩, ⟨.ldcWide, .constant (.string "aé")⟩,
        ⟨.ldc, .constant (.className "A")⟩, ⟨.putstatic, .field ⟨"f", .reference⟩⟩,
        ⟨.newarray, .elementKind .int⟩] := by decide +kernel
  have accepted : assemble .empty text = .ok (block, heap) :=
    assemble_ok_iff.2 ⟨_, hread, rfl⟩
  exact ⟨accepted, assemble_canonicalises accepted⟩

end StackMachine
