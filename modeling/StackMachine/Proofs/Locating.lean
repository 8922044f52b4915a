import StackMachine.Proofs.Origins

/-!
# Which instruction a failure names

A failure carries the index of an instruction. When an instruction of the running activation
cannot complete, this is its own index. One failure comes from elsewhere: a method returns a
value for which the stack of its caller has no room. By then the caller waits at the
instruction behind the call, so the failure carries that index, and where the call is the
last instruction of its block there is nothing at it.
-/

namespace StackMachine

/-- A caller waits behind the instruction at an index, which calls the method that the caller
waits for. -/
structure Caller.Called (c : Caller) (n : Nat) : Prop where
  waits : c.activation.frame.pc = n + 1
  here : ∃ i, c.activation.block[n]? = some i ∧ i.opcode = .invokestatic ∧
    i.operand = .method c.method

namespace FlatMachine

variable {methods : Methods} {block : Block} {m : Machine} {f g : FlatMachine}

/-- The next instruction of the running activation fails. -/
def InstructionFails (f : FlatMachine) (e : Failure) : Prop :=
  ∃ i m, f.top.block[f.top.frame.pc]? = some i ∧ Action.step i f.machine = .error e m

/-- The running activation returns a value as the method of a caller should, which called it
from an index, and there is no room for the value on the caller's stack. -/
structure ResultOverflows (f : FlatMachine) (caller : Caller) (n : Nat) : Prop where
  returns : ∃ i v m, f.top.block[f.top.frame.pc]? = some i ∧
    Action.step i f.machine = .ok (.return (some v)) m ∧ some v.kind = caller.method.result
  waiting : f.callers.head? = some caller
  called : caller.Called n
  full : caller.activation.frame.maxStack ≤ caller.activation.frame.stack.length

/-! ### Callers -/

/-- A control event leaves every caller behind the call that it waits for. -/
theorem Obeys.called {i : Instruction Value} {c : Control} {m' : Machine}
    (here : f.top.block[f.top.frame.pc]? = some i) (stepped : Action.step i f.machine = .ok c m')
    (h : Obeys methods (f.withMachine m') c g) (hf : ∀ caller ∈ f.callers, ∃ n, caller.Called n) :
    ∀ caller ∈ g.callers, ∃ n, caller.Called n := by
  cases h with
  | stays | lands => exact hf
  | @enters method args body found =>
    have hcall := Instruction.method_of_invoke stepped
    exact List.forall_mem_cons.2 ⟨⟨_, Action.pc_of_step stepped, i, here, hcall⟩, hf⟩
  | resumes waiting =>
    change f.callers = _ at waiting
    rw [waiting] at hf
    exact (List.forall_mem_cons.1 hf).2

/-- Wherever an invocation comes, every caller waits behind the call that it waits for. -/
theorem called_of_reaches (h : (course methods block m).Visits f) :
    ∀ caller ∈ f.callers, ∃ n, caller.Called n := by
  induction h with
  | refl => exact List.forall_mem_nil _
  | @tail f g hf hnext ih =>
    have hmove : f.move methods = .running g := hnext
    cases here : f.top.block[f.top.frame.pc]? with
    | none =>
      rw [move_of_end here] at hmove
      cases hmove
    | some i =>
      rw [move_of_step here] at hmove
      cases hs : Action.step i f.machine with
      | error e m' =>
        rw [hs] at hmove
        cases hmove
      | ok c m' =>
        rw [hs] at hmove
        have hobeys := obeys methods (f.withMachine m') c
        dsimp only at hmove
        rw [hmove] at hobeys
        exact hobeys.called here hs ih

/-! ### Failing moves -/

/-- Only a return leads from a control event to the failure of an instruction. -/
theorem return_of_obey {c : Control} {e : Failure}
    (h : f.obey methods c = .failed (.failure e) g) :
    ∃ v caller, c = .return (some v) ∧ f.callers.head? = some caller ∧
      some v.kind = caller.method.result ∧
      caller.activation.frame.maxStack ≤ caller.activation.frame.stack.length ∧
      e = ⟨caller.activation.frame.pc, .stackOverflow⟩ := by
  cases c with
  | next => cases h
  | branch pc offset =>
    change f.branch pc offset = _ at h
    unfold branch at h
    dsimp only at h
    split at h
    · cases h
    · split at h <;> cases h
  | invoke method args =>
    change f.call methods method args = _ at h
    unfold call at h
    split at h
    · cases h
    · split at h <;> cases h
  | «return» v =>
    change f.giveBack v = _ at h
    unfold giveBack at h
    split at h
    · cases h
    · rename_i caller method callers waiting
      dsimp only at h
      split at h
      · cases h
      · rename_i hkind
        split at h
        · cases h
        · rename_i v
          split at h
          · rename_i hfull
            cases h
            rw [waiting]
            exact ⟨v, _, rfl, rfl, Decidable.not_not.1 hkind, hfull, rfl⟩
          · cases h

/-- A value for which there is no room makes the invocation fail. -/
theorem obey_return {v : Value} {caller : Caller} (waiting : f.callers.head? = some caller)
    (kind : some v.kind = caller.method.result)
    (full : caller.activation.frame.maxStack ≤ caller.activation.frame.stack.length) :
    ∃ g, f.obey methods (.return (some v)) =
      .failed (.failure ⟨caller.activation.frame.pc, .stackOverflow⟩) g := by
  change ∃ g, f.giveBack (some v) = _
  unfold giveBack
  split
  · rename_i hcallers
    rw [hcallers] at waiting
    cases waiting
  · rename_i caller' method callers hcallers
    rw [hcallers] at waiting
    cases waiting
    dsimp only
    rw [if_neg (Decidable.not_not.2 kind : ¬ (some v).map Value.kind ≠ method.result), if_pos full]
    exact ⟨_, rfl⟩

/-- A move fails at an instruction when the instruction does, or when it returns a value for
which the caller has no room. -/
theorem move_failure_iff (hcalled : ∀ caller ∈ f.callers, ∃ n, caller.Called n) {e : Failure} :
    (∃ g, f.move methods = .failed (.failure e) g) ↔
      f.InstructionFails e ∨
        ∃ caller n, f.ResultOverflows caller n ∧ e = ⟨n + 1, .stackOverflow⟩ := by
  constructor
  · rintro ⟨g, hmove⟩
    cases here : f.top.block[f.top.frame.pc]? with
    | none =>
      rw [move_of_end here] at hmove
      cases hmove
    | some i =>
      rw [move_of_step here] at hmove
      cases hs : Action.step i f.machine with
      | error e' m' =>
        rw [hs] at hmove
        cases hmove
        exact .inl ⟨i, m', here, hs⟩
      | ok c m' =>
        rw [hs] at hmove
        obtain ⟨v, caller, rfl, waiting, kind, full, rfl⟩ := return_of_obey hmove
        obtain ⟨n, called⟩ := hcalled caller (List.mem_of_mem_head? waiting)
        refine .inr ⟨caller, n, ⟨⟨i, v, m', here, hs, kind⟩, waiting, called, full⟩, ?_⟩
        rw [called.waits]
  · rintro (⟨i, m', here, hs⟩ | ⟨caller, n, ⟨hreturns, waiting, called, full⟩, rfl⟩)
    · rw [move_of_step here, hs]
      exact ⟨_, rfl⟩
    · obtain ⟨i, v, m', here, hs, kind⟩ := hreturns
      rw [move_of_step here, hs, ← called.waits]
      exact obey_return (f := f.withMachine m') waiting kind full

/-! ### Invocations -/

/-- The flat machine halts from where it starts as it does from anywhere that it comes by. -/
theorem Halts.of_reaches {r : EStateM.Result InvocationError Machine (Option Value)}
    (h : Relation.ReflTransGen (Moves methods) f g) (hg : g.Halts methods r) :
    f.Halts methods r := by
  induction h using Relation.ReflTransGen.head_induction_on with
  | refl => exact hg
  | head moved _ ih => exact .running moved ih

/-- An invocation fails at an instruction if and only if it comes by a machine on which the next
instruction fails, or returns a value for which there is no room on the stack of the caller. In
the first case the failure carries the index of that instruction, which lies in its block. In
the second it carries the index behind the call, and it is the call that lies in its block. -/
theorem invoke_failure_iff (methods : Methods) (block : Block) (m : Machine) (e : Failure) :
    (∃ m', Invocation.invoke methods block m = .error (.failure e) m') ↔
      ∃ f, (course methods block m).Visits f ∧
        ((f.InstructionFails e ∧ e.pc = f.top.frame.pc ∧ e.pc < f.top.block.length) ∨
          ∃ caller n, f.ResultOverflows caller n ∧ e = ⟨n + 1, .stackOverflow⟩ ∧
            n < caller.activation.block.length) := by
  constructor
  · rintro ⟨m', hinvoke⟩
    obtain ⟨f, hvisits, hlast⟩ := exists_last_of_invoke methods block m
    refine ⟨f, hvisits, ?_⟩
    obtain ⟨g, hmove⟩ : ∃ g, f.move methods = .failed (.failure e) g := by
      rcases hlast with ⟨v, g, -, h⟩ | ⟨e', g, hmove, h⟩
      · rw [hinvoke] at h
        cases h
      · rw [hinvoke] at h
        cases h
        exact ⟨g, hmove⟩
    rcases (move_failure_iff (called_of_reaches hvisits)).1 ⟨g, hmove⟩ with
      ⟨i, m'', here, hs⟩ | ⟨caller, n, hoverflows, he⟩
    · have hpc : e.pc = f.top.frame.pc := by cases Action.fails_of_step hs <;> rfl
      exact .inl ⟨⟨i, m'', here, hs⟩, hpc, hpc ▸ Block.lt_of_getElem? here⟩
    · obtain ⟨j, hj, -⟩ := hoverflows.called.here
      exact .inr ⟨caller, n, hoverflows, he, Block.lt_of_getElem? hj⟩
  · rintro ⟨f, hvisits, hfails⟩
    obtain ⟨g, hmove⟩ : ∃ g, f.move methods = .failed (.failure e) g := by
      refine (move_failure_iff (called_of_reaches hvisits)).2 ?_
      rcases hfails with ⟨hfails, -⟩ | ⟨caller, n, hoverflows, he, -⟩
      · exact .inl hfails
      · exact .inr ⟨caller, n, hoverflows, he⟩
    exact ⟨_, (halts_iff_invoke methods block m _).1 (.of_reaches hvisits (.failed hmove))⟩

/-- The index in a failure need not lie in any block: here a call is the last instruction, and
there is no room for its result. -/
theorem not_forall_failure_inside :
    ¬ ∀ (methods : Methods) (block : Block) (m m' : Machine) (e : Failure),
      Invocation.invoke methods block m = .error (.failure e) m' →
        ∃ b, (course methods block m).Executes b ∧ e.pc < b.length := by
  intro hforall
  let method : MethodRef := ⟨"f", [], some .int⟩
  let body : Block := [⟨.constant (.int 2), .none⟩, ⟨.returnValue .int, .none⟩]
  let block : Block := [⟨.constant (.int 1), .none⟩, ⟨.invokestatic, .method method⟩]
  let m : Machine := ⟨.new (.ofArguments []) 1, .empty, .empty⟩
  -- The call is the second move, and its method returns with the fourth.
  obtain ⟨m', hhalts⟩ : ∃ m', (start block m).Halts ⟨[("f", body)]⟩
      (.error (.failure ⟨2, .stackOverflow⟩) m') :=
    ⟨_, .running rfl (.running rfl (.running rfl (.failed rfl)))⟩
  have hinvoke := (halts_iff_invoke ..).1 hhalts
  obtain ⟨b, hexecutes, hlt⟩ := hforall _ _ _ _ _ hinvoke
  rcases block_of_executes hexecutes with rfl | ⟨name, hname⟩
  · exact absurd hlt (by decide)
  · obtain rfl : b = body := by
      unfold Methods.find? at hname
      rw [List.lookup_cons] at hname
      split at hname <;> cases hname
      rfl
    exact absurd hlt (by decide)

end FlatMachine

end StackMachine
