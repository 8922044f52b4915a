import Mathlib
import StackMachine.Proofs.Invoking

/-!
# Relocation

No instruction looks at its own index, at values beneath its arguments, or at how much
room is left once there is enough. So an execution that completes can be put elsewhere:
behind other instructions and in front of others, on top of other values, and under a
greater depth limit. One step is relocated by means of its plan, which finds the same
arguments and the same store; the three layers of an invocation follow from it. A callee
has a stack and a block of its own, so of all that only the greater limit reaches it.
-/

namespace StackMachine

/-- Where an execution is put. -/
structure Site where
  /-- How many instructions come before its block. -/
  shift : Nat
  /-- The values beneath its stack, the topmost first. -/
  beneath : List Value
  /-- How much deeper the stack may become than those values require. -/
  spare : Nat

/-- The machine with the running activation put elsewhere. -/
def Machine.relocate (m : Machine) (site : Site) : Machine :=
  { m with
    frame :=
      { stack := m.frame.stack ++ site.beneath
        locals := m.frame.locals
        pc := site.shift + m.frame.pc
        maxStack := m.frame.maxStack + site.beneath.length + site.spare } }

/-- The control event of an instruction that has been put elsewhere. -/
def Control.relocate (site : Site) : Control → Control
  | branch pc offset => .branch (site.shift + pc) offset
  | c => c

/-- The end of a stretch that has been put elsewhere. -/
def Invocation.Exit.relocate (site : Site) : Invocation.Exit → Invocation.Exit
  | branched pc offset => .branched (site.shift + pc) offset
  | .returned v => .returned v

/-- A step that completes does the same elsewhere. -/
theorem Action.step_relocate {i : Instruction Value} {m m' : Machine} {c : Control}
    (h : step i m = .ok c m') (site : Site) :
    step i (m.relocate site) = .ok (c.relocate site) (m'.relocate site) := by
  cases completes_of_step h with
  | @intro p args below e plan stack effect room =>
    have hstack : (m.relocate site).frame.stack = args.values ++ (below ++ site.beneath) := by
      rw [← List.append_assoc, ← stack]
      rfl
    have hroom : e.HasRoom (below ++ site.beneath).length (m.relocate site).frame.maxStack := by
      refine room.imp_right fun hle => ?_
      change _ ≤ m.frame.maxStack + site.beneath.length + site.spare
      rw [List.length_append]
      omega
    rw [step_of_effect plan hstack effect hroom]
    have hafter : (m.relocate site).after e (below ++ site.beneath) =
        (m.after e below).relocate site := by
      simp only [Machine.after, Machine.relocate, List.append_assoc]
      rfl
    have hcontrol : e.move.control (m.relocate site).frame.pc =
        (e.move.control m.frame.pc).relocate site := by
      cases e.move <;> rfl
    rw [hafter, hcontrol]

namespace Invocation

variable {call : MethodRef → List Value → Invocation Unit} {m m' : Machine}

/-- Calls that complete do the same elsewhere. -/
def Relocates (call : MethodRef → List Value → Invocation Unit) : Prop :=
  ∀ {method args m m'} (site : Site), call method args m = .ok () m' →
    call method args (m.relocate site) = .ok () (m'.relocate site)

/-- Following instructions to a branch or a return never comes to what stands behind them. -/
theorem follow_relocate (hcall : Relocates call) {rest : Block} {exit : Exit}
    (h : follow call rest m = .ok exit m') (after : Block) (site : Site) :
    follow call (rest ++ after) (m.relocate site) =
      .ok (exit.relocate site) (m'.relocate site) := by
  induction rest generalizing m with
  | nil => cases h
  | cons i rest ih =>
    rw [follow_cons_apply] at h
    rw [List.cons_append, follow_cons_apply]
    cases hs : Action.step i m with
    | error e n =>
      rw [hs] at h
      cases h
    | ok c n =>
      rw [hs] at h
      rw [Action.step_relocate hs site]
      cases c with
      | next => exact ih h
      | branch pc offset | «return» v =>
        cases h
        rfl
      | invoke method args =>
        dsimp only [Control.relocate] at h ⊢
        cases hc : call method args n with
        | error e n' =>
          rw [hc] at h
          cases h
        | ok u n' =>
          rw [hc] at h
          rw [hcall site hc]
          exact ih h

/-- A branch inside a block is one inside a longer block. -/
private theorem branchTarget_append (before block after : Block) {pc target : Nat} {offset : Int16}
    (h : branchTarget pc offset block.length = .ok target) :
    target < block.length ∧
      branchTarget (before.length + pc) offset (before ++ block ++ after).length =
        .ok (before.length + target) := by
  simp only [branchTarget] at h ⊢
  split at h
  · rename_i hinside
    cases h
    refine ⟨by omega, ?_⟩
    rw [List.length_append, List.length_append, if_pos (by omega)]
    congr 1
    omega
  · cases h

/-- What a longer block has left from an index of the block inside it. -/
private theorem drop_append (before block after : Block) {pc : Nat} (h : pc ≤ block.length) :
    (before ++ block ++ after).drop (before.length + pc) = block.drop pc ++ after := by
  rw [List.append_assoc, List.drop_length_add_append, List.drop_append_of_le_length h]

/-- An activation that returns does the same inside a longer block. -/
theorem activate_relocate (hcall : Relocates call) (before block after : Block) (site : Site)
    (hshift : site.shift = before.length) (branches : Nat) {rest : Block} {m : Machine}
    {v : Option Value} (h : activate call block branches rest m = .ok v m') :
    activate call (before ++ block ++ after) branches (rest ++ after) (m.relocate site) =
      .ok v (m'.relocate site) := by
  rw [activate_apply] at h ⊢
  cases hf : follow call rest m with
  | error e n =>
    rw [hf] at h
    cases h
  | ok exit n =>
    rw [hf] at h
    rw [follow_relocate hcall hf after site]
    cases exit with
    | returned v =>
      cases h
      rfl
    | branched pc offset =>
      cases branches with
      | zero => cases h
      | succ branches =>
        dsimp only [Exit.relocate] at h ⊢
        cases ht : branchTarget pc offset block.length with
        | error e =>
          rw [ht] at h
          cases h
        | ok target =>
          rw [ht] at h
          obtain ⟨hlt, htarget⟩ := branchTarget_append before block after ht
          rw [hshift, htarget]
          dsimp only
          rw [drop_append before block after (Nat.le_of_lt hlt), ← hshift]
          exact activate_relocate hcall before block after site hshift branches h

/-- A result for which there is room finds room elsewhere. -/
private theorem resume_relocate {result : Option Value} (site : Site)
    (h : ofAction (Action.resume result) m = .ok () m') :
    ofAction (Action.resume result) (m.relocate site) = .ok () (m'.relocate site) := by
  cases result with
  | none =>
    cases h
    rfl
  | some v =>
    rw [resume_some_apply] at h ⊢
    split at h
    · cases h
    · rename_i hroom
      cases h
      refine if_neg ?_
      change ¬ m.frame.maxStack + site.beneath.length + site.spare ≤
        (m.frame.stack ++ site.beneath).length
      rw [List.length_append]
      omega

/-- Calls do the same elsewhere, however many may be nested. -/
theorem call_relocates (methods : Methods) (calls : Nat) :
    Relocates (Invocation.call methods calls) := by
  induction calls with
  | zero =>
    intro method args m m' site h
    cases h
  | succ calls ih =>
    intro method args m m' site h
    rw [call_succ_apply] at h ⊢
    cases hbody : methods.find? method.name with
    | none =>
      rw [hbody] at h
      cases h
    | some body =>
      rw [hbody] at h
      dsimp only at h ⊢
      -- The callee starts where it always starts, but its stack may become as deep as its caller's.
      let inner : Site := ⟨0, [], site.beneath.length + site.spare⟩
      have hframe : (m.relocate site).withFrame
          (.new (.ofArguments args) (m.relocate site).frame.maxStack) =
            (m.withFrame (.new (.ofArguments args) m.frame.maxStack)).relocate inner := by
        simp only [Machine.relocate, Machine.withFrame, Frame.new, inner, List.append_nil,
          List.length_nil, Nat.add_zero, Nat.add_assoc]
      cases hact : activate (Invocation.call methods calls) body branchLimit body
          (m.withFrame (.new (.ofArguments args) m.frame.maxStack)) with
      | error e n =>
        rw [hact] at h
        cases h
      | ok result n =>
        rw [hact] at h
        have hinner := activate_relocate ih [] body [] inner rfl branchLimit hact
        rw [List.nil_append, List.append_nil] at hinner
        rw [hframe, hinner]
        dsimp only at h ⊢
        split at h
        · cases h
        · rename_i hresult
          rw [if_neg hresult]
          exact resume_relocate site h

/-- An invocation that returns does so inside a longer block, on a stack with other values
beneath it, and with a depth limit that leaves room for them. It returns the same value, and
leaves the same slots, static fields and objects behind, the same stack on top of those
values, and the index that is as far into the block. -/
theorem invoke_relocate (methods : Methods) (before block after : Block) (beneath : List Value)
    {maxStack : Nat} (deep : m.frame.maxStack + beneath.length ≤ maxStack) {v : Option Value}
    (h : invoke methods block m = .ok v m') :
    invoke methods (before ++ block ++ after)
        (m.withFrame ⟨m.frame.stack ++ beneath, m.frame.locals, before.length + m.frame.pc,
          maxStack⟩) =
      .ok v (m'.withFrame ⟨m'.frame.stack ++ beneath, m'.frame.locals,
        before.length + m'.frame.pc, maxStack⟩) := by
  rw [invoke_apply] at h
  have hkept : m'.frame.maxStack = m.frame.maxStack := maxStack_of_activate branchLimit h
  obtain ⟨spare, rfl⟩ := Nat.exists_eq_add_of_le deep
  let site : Site := ⟨before.length, beneath, spare⟩
  have hm' : m'.withFrame ⟨m'.frame.stack ++ beneath, m'.frame.locals,
      before.length + m'.frame.pc, m.frame.maxStack + beneath.length + spare⟩ =
        m'.relocate site := by
    rw [← hkept]
    rfl
  rw [hm', invoke_apply]
  by_cases hpc : m.frame.pc ≤ block.length
  · have hactivate := activate_relocate (call_relocates methods callLimit) before block after site
      rfl branchLimit h
    rw [← drop_append before block after hpc] at hactivate
    exact hactivate
  · rw [List.drop_eq_nil_of_le (by omega), activate_apply] at h
    cases h

/-- A loop that adds up the numbers from its slot down to one, and adds a number that a method
doubles on a stack of its own, does so between other instructions and on top of a long. -/
theorem invoke_relocate_sum :
    let twice : Block :=
      [⟨.load .int none, .slot 0⟩, ⟨.dup, .none⟩, ⟨.arithmetic .add .int, .none⟩,
        ⟨.returnValue .int, .none⟩]
    let block : Block :=
      [⟨.constant (.int 1), .none⟩, ⟨.load .int none, .slot 0⟩, ⟨.arithmetic .add .int, .none⟩,
        ⟨.iinc, .increment 0 (-1)⟩, ⟨.load .int none, .slot 0⟩, ⟨.ifZero .ne, .branch (-4)⟩,
        ⟨.invokestatic, .method ⟨"twice", [.int], some .int⟩⟩, ⟨.returnValue .int, .none⟩]
    let methods : Methods := .insert .empty "twice" twice
    let before : Block := [⟨.returnVoid, .none⟩, ⟨.pop, .none⟩]
    let after : Block := [⟨.pop, .none⟩]
    let m : Machine := ⟨.new (.ofArguments [.int 3]) 2, .empty, .empty⟩
    let m' : Machine := ⟨⟨[], .ofArguments [.int 0], 8, 2⟩, .empty, .empty⟩
    m.frame.maxStack + [Value.long 9].length ≤ 3 ∧
      Invocation.invoke methods block m = .ok (some (.int 12)) m' ∧
      Invocation.invoke methods (before ++ block ++ after)
          (m.withFrame ⟨[.long 9], .ofArguments [.int 3], 2, 3⟩) =
        .ok (some (.int 12)) (m'.withFrame ⟨[.long 9], .ofArguments [.int 0], 10, 3⟩) := by
  intro twice block methods before after m m'
  have hinvoke : Invocation.invoke methods block m = .ok (some (.int 12)) m' := by cbv
  exact ⟨by decide, hinvoke,
    invoke_relocate methods before block after [.long 9] (by decide) hinvoke⟩

end Invocation

end StackMachine
