import StackMachine.Proofs.Effects
import StackMachine.Proofs.Stepping

/-!
# Failing steps

A step that fails leaves behind what it found, except for arguments that it has taken
off the stack. The one way in which something could have been written before the
failure is a result for which there is no room; but a plan that pushes no more than it
takes always finds room on a stack that was not too deep, and the others write nothing.
-/

namespace StackMachine

/-- An instruction that pushes more than it takes writes nothing, and what it pushes first is
what it has taken. -/
theorem Instruction.Yields.of_grows {i : Instruction Value} {taken : List Value} {s : Store}
    {e : Effect} (h : i.Yields taken s e) (hlt : taken.length < e.pushes.length) :
    e.store = s ∧ e.pushes.length = taken.length + 1 ∧
      (e.pushes.take taken.length).reverse = taken := by
  cases h with
  | constant | bipush | sipush | ldc | ldcWide | ldc2 | load | getstatic | dup =>
    exact ⟨rfl, rfl, rfl⟩
  | _ => simp [Effect.push, Effect.write, Effect.leave, Effect.allocate] at hlt

/-- The number of values that an instruction takes is the length of its plan's demand. -/
theorem Instruction.arity_eq {i : Instruction Value} {p : Plan} (h : i.plan? = some p) :
    i.arity = p.demand.length := by
  rw [arity, signature?_eq, h]
  rfl

/-- A failing step changes nothing but the top of the stack. On a stack that is not too
deep it leaves the index, the depth limit, the slots, the static fields and the objects
as they were, takes no more values than the instruction has arguments, and reports the
index of the instruction. -/
theorem step_error_leaves {i : Instruction Value} {m m' : Machine} {e : Failure}
    (depth : m.frame.stack.length ≤ m.frame.maxStack) (h : Action.step i m = .error e m') :
    e.pc = m.frame.pc ∧ ∃ n ≤ i.arity, m' = m.withStack (m.frame.stack.drop n) := by
  cases Action.fails_of_step h with
  | operand => exact ⟨rfl, 0, Nat.zero_le _, rfl⟩
  | argument plan taken => exact ⟨rfl, _, Instruction.arity_eq plan ▸ taken, rfl⟩
  | @refused p args below c plan stack =>
    refine ⟨rfl, p.demand.length, Nat.le_of_eq (Instruction.arity_eq plan).symm, ?_⟩
    rw [stack, ← args.length_values, List.drop_left]
  | @overflow p args below e n plan stack effect pushed full =>
    have hlen := congrArg List.length stack
    rw [List.length_append] at hlen
    obtain ⟨hstore, hpushes, htake⟩ :=
      (Instruction.yields_of_effect plan effect).of_grows (by omega)
    -- The stack overflows at the last value, when all arguments are back on it.
    obtain rfl : n = args.values.length := by omega
    refine ⟨rfl, 0, Nat.zero_le _, ?_⟩
    rw [hstore, htake, ← stack]
    rfl

/-- Storing an element behind the end of an array takes all three arguments and nothing
that lies beneath them. -/
theorem step_error_leaves_iastore :
    let h := (Heap.empty.alloc (.array (.zeroed .int 2))).2
    let m : Machine :=
      ⟨⟨[.int 7, .int 5, .reference (.to 0), .int 1], .zeroed 0, 3, 4⟩, .empty, h⟩
    let i : Instruction Value := ⟨.arrayStore .int, .none⟩
    Action.step i m =
        .error ⟨3, .fault (.arrayIndex 5 2)⟩ (m.withStack [.int 1]) ∧
      ∃ n ≤ i.arity, m.withStack [.int 1] = m.withStack (m.frame.stack.drop n) := by
  intro h m i
  have hs : Action.step i m = .error ⟨3, .fault (.arrayIndex 5 2)⟩ (m.withStack [.int 1]) := rfl
  exact ⟨hs, (step_error_leaves (by decide) hs).2⟩

end StackMachine
