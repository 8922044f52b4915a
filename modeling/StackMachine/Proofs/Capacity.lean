import StackMachine.Proofs.Failing
import StackMachine.Proofs.Footprint
import StackMachine.Proofs.Running

/-!
# The capacity of a frame

A frame is made with a number of slots and with a depth that its stack may reach, and whatever is
done with it keeps to both, whether it succeeds or not. Only a push looks at the depth limit. An
instruction that leaves no more values than it takes therefore has room for them on any stack that
has kept to the limit so far, and the others, which write nothing else, are refused by a full stack
before they have changed anything.
-/

namespace StackMachine

/-! ### Instructions that need room -/

/-- The opcodes that leave one value more than they take: constants, loads from slots, reads of
static fields and `dup`. -/
def Opcode.needsRoom : Opcode → Bool
  | .constant _ | .bipush | .sipush | .ldc | .ldcWide | .ldc2 | .load .. | .dup | .getstatic => true
  | _ => false

variable {i : Instruction Value} {m m' : Machine} {e : Failure}

/-- No other opcode leaves more values than it takes. -/
theorem Instruction.Yields.needsRoom {taken : List Value} {s : Store} {e : Effect}
    (h : i.Yields taken s e) (hlt : taken.length < e.pushes.length) : i.opcode.needsRoom := by
  cases h with
  | constant | bipush | sipush | ldc | ldcWide | ldc2 | load | dup | getstatic => rfl
  | _ => simp [Effect.push, Effect.write, Effect.leave, Effect.allocate] at hlt

/-- A stack that keeps to its limit overflows only when it is full, and only at an instruction that
needs room. Nothing has changed then. -/
theorem Fails.of_stackOverflow (depth : m.frame.stack.length ≤ m.frame.maxStack)
    (h : Fails i m e m') (cause : e.cause = .stackOverflow) :
    i.opcode.needsRoom ∧ m.frame.stack.length = m.frame.maxStack ∧ m' = m := by
  cases h with
  | operand => cases cause
  | argument plan taken hc => rcases hc with rfl | ⟨k, found, rfl⟩ <;> cases cause
  | @refused p args below c plan stack effect =>
    obtain rfl : c = .stackOverflow := cause
    exact ((Instruction.family_of_plan? plan).isRefusal effect).elim
  | @overflow p args below e n plan stack effect pushed full =>
    have hyields := Instruction.yields_of_effect plan effect
    have hlen := congrArg List.length stack
    rw [List.length_append] at hlen
    have hlt : args.values.length < e.pushes.length := by omega
    obtain ⟨hstore, hpushes, htake⟩ := hyields.of_grows hlt
    -- The arguments are back on the stack when it overflows.
    obtain rfl : n = args.values.length := by omega
    refine ⟨hyields.needsRoom hlt, by omega, ?_⟩
    rw [hstore, htake, ← stack]
    rfl

/-! ### Bounds -/

/-- A frame has a number of slots, and a stack that is not deeper than it may be. -/
structure Frame.Bounded (f : Frame) (maxStack slots : Nat) : Prop where
  depth : f.stack.length ≤ maxStack
  limit : f.maxStack = maxStack
  slots : f.locals.length = slots

section

variable {f : Frame} {maxStack slots : Nat}

/-- A new frame keeps to its bounds. -/
theorem Frame.bounded_new (locals : Locals) (maxStack : Nat) :
    (Frame.new locals maxStack).Bounded maxStack locals.length :=
  ⟨Nat.zero_le _, rfl, rfl⟩

theorem Frame.Bounded.withStack (h : m.frame.Bounded maxStack slots) {stack : List Value}
    (hstack : stack.length ≤ maxStack) : (m.withStack stack).frame.Bounded maxStack slots :=
  ⟨hstack, h.limit, h.slots⟩

/-- A step keeps the bounds, whether it completes or fails. -/
theorem Action.bounded_of_step (i : Instruction Value) (h : m.frame.Bounded maxStack slots) :
    (Machine.leftBy (step i m)).frame.Bounded maxStack slots := by
  have hdepth := h.limit ▸ h.depth
  rcases step_cases i m with ⟨c, m', hs, hcompletes⟩ | ⟨e, m', hs, hfails⟩
  · rw [hs]
    cases hcompletes with
    | @intro p args below e plan stack effect room =>
      have hlen := congrArg List.length stack
      rw [List.length_append, args.length_values] at hlen
      have hcovers := (Instruction.yields_of_effect plan effect).covers
      refine ⟨?_, h.limit, hcovers.length_locals.trans h.slots⟩
      change (e.pushes.reverse ++ below).length ≤ maxStack
      rw [List.length_append, List.length_reverse, ← h.limit]
      rcases room with hnone | hroom
      · rw [hnone, List.length_nil]
        omega
      · omega
  · rw [hs]
    by_cases hc : e.cause = .stackOverflow
    · obtain ⟨-, -, rfl⟩ := hfails.of_stackOverflow hdepth hc
      exact h
    · have hrest (n : Nat) : (m.frame.stack.drop n).length ≤ maxStack :=
        Nat.le_trans (List.drop_sublist ..).length_le h.depth
      cases hfails with
      | operand => exact h
      | @argument p c n plan taken cause => exact h.withStack (hrest n)
      | @refused p args below c plan stack effect =>
        refine h.withStack ?_
        have hbelow := hrest args.values.length
        rwa [stack, List.drop_left] at hbelow
      | overflow => exact absurd rfl hc

/-- A run keeps the bounds wherever it comes, and in the end. -/
theorem Block.bounded_of_visits {block : Block} {p : Machine} (hvisits : (block.course m).Visits p)
    (h : m.frame.Bounded maxStack slots) : p.frame.Bounded maxStack slots := by
  induction hvisits with
  | refl => exact h
  | tail _ hnext ih =>
    obtain ⟨i, -, stepped⟩ := hnext
    have hstep := Action.bounded_of_step i ih
    rwa [stepped] at hstep

/-- A run keeps the bounds in the end. -/
theorem Action.bounded_of_run (block : Block) (h : m.frame.Bounded maxStack slots) :
    (Machine.leftBy (run block m)).frame.Bounded maxStack slots := by
  obtain ⟨last, hvisits, ⟨-, hend⟩ | ⟨i, -, hend⟩⟩ := block.exists_last_of_run m
  · rw [hend]
    exact block.bounded_of_visits hvisits h
  · rw [hend]
    exact bounded_of_step i (block.bounded_of_visits hvisits h)

end

/-! ### What can be done with a frame -/

/-- An operation on a frame. -/
inductive FrameOperation where
  /-- Push a value. -/
  | push (v : Value)
  /-- Pop a value. -/
  | pop
  /-- Go to an instruction. -/
  | jump (pc : Nat)
  /-- Take back the result of a call. -/
  | resume (result : Option Value)
  /-- Give a slot a value. -/
  | store (index : UInt16) (v : Value)
  /-- Execute an instruction. -/
  | step (i : Instruction Value)
  /-- Run a block. -/
  | run (block : Block)

namespace FrameOperation

/-- What an operation does. What it gives back is of no concern here. -/
def perform : FrameOperation → Action Unit
  | push v => Action.push v
  | pop => discard Action.pop
  | jump pc => Action.modifyFrame fun f => { f with pc := pc }
  | resume result => Action.resume result
  | store index v => Action.setSlot index v
  | step i => discard (Action.step i)
  | run block => discard (Action.run block)

end FrameOperation

/-- An operation, with the static fields and the objects that it finds. -/
structure FrameUse where
  operation : FrameOperation
  statics : Statics
  heap : Heap

/-- The frame after a number of operations, each of which may succeed or fail. Between two of them
the static fields and the objects may become any others. -/
def Frame.after (f : Frame) : List FrameUse → Frame
  | [] => f
  | u :: rest => ((Machine.leftBy (u.operation.perform ⟨f, u.statics, u.heap⟩)).frame).after rest

section

variable {maxStack slots : Nat}

/-- Discarding a result leaves the same machine behind. -/
theorem Action.leftBy_discard {α : Type} (a : Action α) (m : Machine) :
    Machine.leftBy (discard a m) = Machine.leftBy (a m) := by
  change Machine.leftBy (EStateM.map (fun _ => ()) a m) = _
  unfold EStateM.map
  cases a m <;> rfl

theorem Action.bounded_of_push (v : Value) (h : m.frame.Bounded maxStack slots) :
    (Machine.leftBy (push v m)).frame.Bounded maxStack slots := by
  rw [push_apply]
  split
  · exact h
  · rename_i hroom
    rw [h.limit] at hroom
    exact h.withStack (Nat.lt_of_not_le hroom)

theorem Action.bounded_of_pop (h : m.frame.Bounded maxStack slots) :
    (Machine.leftBy (pop m)).frame.Bounded maxStack slots := by
  rw [pop_apply]
  cases hstack : m.frame.stack with
  | nil => exact h
  | cons v rest =>
    have hdepth := h.depth
    rw [hstack] at hdepth
    exact h.withStack (Nat.le_of_succ_le hdepth)

/-- Giving a slot a value keeps the bounds. -/
theorem Action.bounded_of_setSlot (index : UInt16) (v : Value)
    (h : m.frame.Bounded maxStack slots) :
    (Machine.leftBy (setSlot index v m)).frame.Bounded maxStack slots := by
  change (Machine.leftBy ((ofFault (m.frame.locals.store index v) >>= _) m)).frame.Bounded _ _
  rw [bind_apply]
  cases hstore : m.frame.locals.store index v with
  | error f => exact h
  | ok locals => exact ⟨h.depth, h.limit, (Locals.length_store hstore).trans h.slots⟩

/-- Every operation keeps the bounds. -/
theorem FrameOperation.bounded (o : FrameOperation) (h : m.frame.Bounded maxStack slots) :
    (Machine.leftBy (o.perform m)).frame.Bounded maxStack slots := by
  cases o with
  | push v => exact Action.bounded_of_push v h
  | pop =>
    rw [perform, Action.leftBy_discard]
    exact Action.bounded_of_pop h
  | jump pc => exact ⟨h.depth, h.limit, h.slots⟩
  | resume result =>
    cases result with
    | none => exact h
    | some v => exact Action.bounded_of_push v h
  | store index v => exact Action.bounded_of_setSlot index v h
  | step i =>
    rw [perform, Action.leftBy_discard]
    exact Action.bounded_of_step i h
  | run block =>
    rw [perform, Action.leftBy_discard]
    exact Action.bounded_of_run block h

/-- So do any number of operations. -/
theorem Frame.Bounded.after {f : Frame} (h : f.Bounded maxStack slots) (uses : List FrameUse) :
    (f.after uses).Bounded maxStack slots := by
  induction uses generalizing f with
  | nil => exact h
  | cons u rest ih => exact ih (u.operation.bounded (m := ⟨f, u.statics, u.heap⟩) h)

end

/-! ### The capacity -/

/-- A frame keeps to its bounds, and the stack overflows only where it has to. -/
structure Frame.HasCapacity (f : Frame) (maxStack slots : Nat) : Prop
    extends f.Bounded maxStack slots where
  /-- A push is refused by a full stack and by no other, and leaves everything as it is then. -/
  push_eq : ∀ (v : Value) (s : Statics) (h : Heap), Action.push v ⟨f, s, h⟩ =
    if f.stack.length = maxStack then .error ⟨f.pc, .stackOverflow⟩ ⟨f, s, h⟩
    else .ok () ⟨{ f with stack := v :: f.stack }, s, h⟩
  /-- The result of a call is pushed in the same way, and none is never refused. -/
  resume_eq : ∀ (result : Option Value) (s : Statics) (h : Heap),
    Action.resume result ⟨f, s, h⟩ = result.elim (.ok () ⟨f, s, h⟩) (Action.push · ⟨f, s, h⟩)
  /-- The stack overflows in a step only at an instruction that needs room, and only if it is full.
  Arithmetic and bitwise operations, shifts, comparisons, conversions, all instructions for arrays
  and `swap` need none. Nothing has changed then. -/
  step_overflow : ∀ (i : Instruction Value) (s : Statics) (h : Heap) (e : Failure) (m' : Machine),
    Action.step i ⟨f, s, h⟩ = .error e m' → e.cause = .stackOverflow →
      i.opcode.needsRoom ∧ f.stack.length = maxStack ∧ m' = ⟨f, s, h⟩
  /-- In a run, too, only such an instruction is reported for an overflow. -/
  run_overflow : ∀ (block : Block) (s : Statics) (h : Heap) (e : Failure) (m' : Machine),
    Action.run block ⟨f, s, h⟩ = .error e m' → e.cause = .stackOverflow →
      ∃ i, block[e.pc]? = some i ∧ i.opcode.needsRoom ∧ m'.frame.stack.length = maxStack

/-- A frame that keeps to its bounds has the capacity that they tell. -/
theorem Frame.Bounded.hasCapacity {f : Frame} {maxStack slots : Nat}
    (hf : f.Bounded maxStack slots) : f.HasCapacity maxStack slots where
  toBounded := hf
  push_eq v s h := by
    have hfull : f.maxStack ≤ f.stack.length ↔ f.stack.length = maxStack := by
      have hdepth := hf.depth
      rw [hf.limit]
      omega
    rw [Action.push_apply]
    by_cases hlen : f.stack.length = maxStack
    · rw [if_pos (hfull.2 hlen), if_pos hlen]
    · rw [if_neg (mt hfull.1 hlen), if_neg hlen]
      rfl
  resume_eq result _ _ := by cases result <;> rfl
  step_overflow i s h e m' hs hc := by
    obtain ⟨hroom, hfull, hsame⟩ := (Action.fails_of_step hs).of_stackOverflow
      (hf.limit ▸ hf.depth) hc
    exact ⟨hroom, hfull.trans hf.limit, hsame⟩
  run_overflow block s h e m' hrun hc := by
    obtain ⟨p, i, hvisits, here, stepped, hpc, -⟩ :=
      (block.runsByStepping _).pc_of_failure e m' hrun
    have hp := block.bounded_of_visits hvisits hf
    obtain ⟨hroom, hfull, rfl⟩ := (Action.fails_of_step stepped).of_stackOverflow
      (hp.limit ▸ hp.depth) hc
    exact ⟨i, hpc ▸ here, hroom, hfull.trans hp.limit⟩

/-- Whatever is done with a new frame, and whether it succeeds or not, the stack is never deeper
than the limit with which the frame was made, the limit and the number of slots never change, and
only a value for which a full stack has no room is ever refused for an overflow. -/
theorem frames_keep_capacity (locals : Locals) (maxStack : Nat) (uses : List FrameUse) :
    ((Frame.new locals maxStack).after uses).HasCapacity maxStack locals.length :=
  ((Frame.bounded_new locals maxStack).after uses).hasCapacity

end StackMachine
