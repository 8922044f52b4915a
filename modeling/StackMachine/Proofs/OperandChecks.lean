import StackMachine.Proofs.Effects
import StackMachine.Proofs.Reading
import StackMachine.Proofs.Stepping

/-!
# Operands are checked twice

Reading a text checks operands, and executing an instruction checks its operand again. A
step fails on its operand exactly when the instruction has no plan, whatever the machine is.
The two checks agree but for one instruction: the reader takes `reference` for the element
kind of `newarray`, which makes arrays of primitive kinds only.
-/

namespace StackMachine

/-- A step fails on its operand if the instruction has no plan, and only then. -/
theorem Action.badOperand_iff (i : Instruction Value) (m : Machine) :
    (∃ e m' op, step i m = .error e m' ∧ e.cause = .badOperand op) ↔ i.plan? = none := by
  constructor
  · rintro ⟨e, m', op, hstep, hcause⟩
    cases fails_of_step hstep with
    | operand hplan => exact hplan
    | argument hplan taken cause => rcases cause with rfl | ⟨k, found, rfl⟩ <;> cases hcause
    | @refused p args below c hplan hstack heffect =>
      obtain rfl : c = .badOperand op := hcause
      exact ((Instruction.family_of_plan? hplan).isRefusal heffect).elim
    | overflow => cases hcause
  · intro hplan
    refine ⟨⟨m.frame.pc, .badOperand i.opcode⟩, m, i.opcode, ?_, rfl⟩
    rw [step_apply, perform_eq, hplan]
    rfl

namespace Instruction

variable {h : Heap}

/-- The one instruction whose operand is read but not executed. -/
def IsUnsupported (i : Instruction Value) : Prop :=
  i.opcode = .newarray ∧ i.operand = .elementKind .reference

/-- Such an instruction has no plan. -/
theorem IsUnsupported.plan? {i : Instruction Value} (hi : i.IsUnsupported) : i.plan? = none := by
  obtain ⟨op, operand⟩ := i
  obtain ⟨rfl, rfl⟩ := hi
  rfl

/-- Every other instruction whose operand fits its opcode has a plan. -/
theorem exists_plan {i : Instruction Value} (hi : i.operand.Fits (Value.Fits h) i.opcode.shape)
    (hsupported : ¬ i.IsUnsupported) : ∃ p, i.plan? = some p := by
  obtain ⟨op, operand⟩ := i
  cases op with
  | bipush | sipush =>
    cases operand with
    | immediate n => exact ⟨_, congrArg (Option.map _) (if_pos hi)⟩
    | _ => exact hi.elim
  | ldc | ldcWide | ldc2 =>
    cases operand with
    | constant v => exact ⟨_, congrArg (Option.map _) (if_pos hi.1)⟩
    | _ => exact hi.elim
  | load k slot | store k slot =>
    cases slot with
    | some n => exact ⟨_, rfl⟩
    | none =>
      cases operand with
      | slot index => exact ⟨_, rfl⟩
      | _ => exact hi.elim
  | iinc =>
    cases operand with
    | increment index delta => exact ⟨_, rfl⟩
    | _ => exact hi.elim
  | ifZero | ifInt | ifSame | ifNull =>
    cases operand with
    | branch offset => exact ⟨_, rfl⟩
    | _ => exact hi.elim
  | getstatic | putstatic =>
    cases operand with
    | field f => exact ⟨_, rfl⟩
    | _ => exact hi.elim
  | invokestatic =>
    cases operand with
    | method m => exact ⟨_, rfl⟩
    | _ => exact hi.elim
  | newarray =>
    cases operand with
    | elementKind k =>
      have hk : k ≠ .reference := by
        rintro rfl
        exact hsupported ⟨rfl, rfl⟩
      exact ⟨_, congrArg (Option.map _) (if_neg hk)⟩
    | _ => exact hi.elim
  | _ => exact ⟨_, rfl⟩

end Instruction

/-- Operands are checked alike when a text is read and when its instructions are executed,
with one exception: whatever machine it meets, an instruction of a block that was assembled
fails on its operand if it is to make an array of references as one of primitives, and never
otherwise. -/
theorem badOperand_iff_of_assemble {h h' : Heap} {text : String} {block : Block}
    (accepted : assemble h text = .ok (block, h')) {i : Instruction Value} (hi : i ∈ block)
    (m : Machine) :
    (∃ e m' op, Action.step i m = .error e m' ∧ e.cause = .badOperand op) ↔
      i.opcode = .newarray ∧ i.operand = .elementKind .reference := by
  rw [Action.badOperand_iff]
  constructor
  · intro hplan
    refine Decidable.byContradiction fun hsupported => ?_
    obtain ⟨p, hp⟩ := Instruction.exists_plan (wellFormed_of_assemble accepted i hi) hsupported
    rw [hplan] at hp
    cases hp
  · exact Instruction.IsUnsupported.plan?

/-- A text that asks `newarray` for an array of references is accepted, and the instruction
fails. -/
theorem badOperand_iff_of_assemble_newarray :
    let text := "iconst_1\nnewarray reference\n"
    let block : Block := [⟨.constant (.int 2), .none⟩, ⟨.newarray, .elementKind .reference⟩]
    let m : Machine := ⟨.new (.ofArguments []) 1, .empty, .empty⟩
    assemble .empty text = .ok (block, .empty) ∧
      ⟨.newarray, .elementKind .reference⟩ ∈ block ∧
      ((∃ e m' op, Action.step ⟨.newarray, .elementKind .reference⟩ m = .error e m' ∧
          e.cause = .badOperand op) ↔
        Opcode.newarray = .newarray ∧
          (Operand.elementKind .reference : Operand Value) = .elementKind .reference) := by
  intro text block m
  have hread : Assembly.read text =
      .ok [⟨.constant (.int 2), .none⟩, ⟨.newarray, .elementKind .reference⟩] := by
    decide +kernel
  have accepted : assemble .empty text = .ok (block, .empty) :=
    assemble_ok_iff.2 ⟨_, hread, rfl⟩
  have hmem : ⟨.newarray, .elementKind .reference⟩ ∈ block := .tail _ (.head _)
  exact ⟨accepted, hmem, badOperand_iff_of_assemble accepted hmem m⟩

/-- Not every text that is accepted is executed without a complaint about operands. -/
theorem not_forall_assemble_supported :
    ¬ ∀ (text : String) (block : Block) (h : Heap), assemble .empty text = .ok (block, h) →
      ∀ i ∈ block, ∀ (m m' : Machine) (e : Failure) (op : Opcode),
        Action.step i m = .error e m' → e.cause ≠ .badOperand op := by
  intro hclaim
  have hread : Assembly.read "newarray reference" =
      .ok [⟨.newarray, .elementKind .reference⟩] := by
    decide +kernel
  have accepted : assemble .empty "newarray reference" =
      .ok ([⟨.newarray, .elementKind .reference⟩], .empty) :=
    assemble_ok_iff.2 ⟨_, hread, rfl⟩
  let m : Machine := ⟨⟨[.int 1], ⟨#[]⟩, 0, 1⟩, .empty, .empty⟩
  exact hclaim _ _ _ accepted _ (.head _) m m ⟨0, .badOperand .newarray⟩ .newarray rfl rfl

end StackMachine
