import StackMachine.Proofs.FlatMachine
import StackMachine.Proofs.Invoking

/-!
# Invocations are runs of the flat machine

An invocation nests three recursions: it follows instructions, takes branches, and
calls methods. The flat machine makes the same moves in the same order. The proof goes
through the three recursions from the inside out, and always in the same direction:
whatever becomes of the flat machine where a stretch of the invocation ends, becomes
of it where the stretch begins. The limits agree because what an invocation may still
take and what the flat machine has taken add up to the limit.
-/

namespace StackMachine

variable {methods : Methods} {r : EStateM.Result InvocationError Machine (Option Value)}

/-- What becomes of the flat machine after a move. -/
def Moved.Ends (methods : Methods) (r : EStateM.Result InvocationError Machine (Option Value)) :
    Moved → Prop
  | running f => f.Halts methods r
  | returned result f => r = .ok result f.outermost
  | failed e f => r = .error e f.outermost

namespace FlatMachine

/-- A halt of the flat machine is one after its next move. -/
theorem halts_of_move {f : FlatMachine} (h : (f.move methods).Ends methods r) :
    f.Halts methods r := by
  generalize hm : f.move methods = moved at h
  cases moved with
  | running f' => exact .running hm h
  | returned result f' =>
    obtain rfl := h
    exact .returned hm
  | failed e f' =>
    obtain rfl := h
    exact .failed hm

/-- What follows where a stretch without branches ends. -/
def onExit (f : FlatMachine) : EStateM.Result InvocationError Machine Invocation.Exit → Moved
  | .ok (.returned v) m => (f.withMachine m).giveBack v
  | .ok (.branched pc offset) m => (f.withMachine m).branch pc offset
  | .error e m => .failed e (f.withMachine m)

/-- What follows where an activation ends. -/
def onResult (f : FlatMachine) : EStateM.Result InvocationError Machine (Option Value) → Moved
  | .ok v m => (f.withMachine m).giveBack v
  | .error e m => .failed e (f.withMachine m)

/-- What follows where a call ends. -/
def onAnswer (f : FlatMachine) : EStateM.Result InvocationError Machine Unit → Moved
  | .ok _ m => .running (f.withMachine m)
  | .error e m => .failed e (f.withMachine m)

/-- The calls of an invocation are those of a flat machine with a number of callers. -/
structure Simulates (methods : Methods) (call : MethodRef → List Value → Invocation Unit)
    (depth : Nat) : Prop where
  /-- The caller goes on where it was. -/
  pc : ∀ {method args m u m'}, call method args m = .ok u m' → m'.frame.pc = m.frame.pc
  /-- What becomes of the flat machine where a call ends becomes of it where it begins. -/
  ends : ∀ {f : FlatMachine} {method args r}, f.callers.length = depth →
    (f.onAnswer (call method args f.machine)).Ends methods r →
      (f.call methods method args).Ends methods r

variable {call : MethodRef → List Value → Invocation Unit} {f : FlatMachine} {depth : Nat}

/-- Following instructions is moving up to a branch or a return. -/
theorem halts_of_follow {rest : Block} (hcall : Simulates methods call depth)
    (hdepth : f.callers.length = depth) (hrest : f.top.block.drop f.top.frame.pc = rest)
    (h : (f.onExit (Invocation.follow call rest f.machine)).Ends methods r) :
    f.Halts methods r := by
  induction rest generalizing f with
  | nil =>
    have hend := List.getElem?_eq_none (List.drop_eq_nil_iff.1 hrest)
    refine halts_of_move ?_
    rw [move, hend]
    exact h
  | cons i rest ih =>
    obtain ⟨hi, hrest⟩ := Block.of_drop_eq_cons hrest
    rw [Invocation.follow_cons_apply] at h
    refine halts_of_move ?_
    rw [move, hi]
    dsimp only
    cases hs : Action.step i f.machine with
    | error e m =>
      rw [hs] at h
      exact h
    | ok c m =>
      rw [hs] at h
      have hpc : m.frame.pc = f.top.frame.pc + 1 := Action.pc_of_step hs
      rw [← hpc] at hrest
      cases c with
      | next => exact ih hdepth hrest h
      | branch pc offset => exact h
      | «return» v => exact h
      | invoke method args =>
        refine hcall.ends hdepth ?_
        change (onAnswer _ (call method args m)).Ends methods r
        dsimp only at h
        cases hc : call method args m with
        | error e m' =>
          rw [hc] at h
          exact h
        | ok u m' =>
          rw [hc] at h
          rw [← hcall.pc hc] at hrest
          exact ih hdepth hrest h

/-- At the limit no branch is taken. -/
theorem branch_of_limit (h : branchLimit ≤ f.top.branches) (pc : Nat) (offset : Int16) :
    f.branch pc offset = .failed .tooManyBranches f :=
  if_pos (Nat.lt_succ_of_le h)

/-- Below the limit a branch is taken if it leads into the block. -/
theorem branch_of_lt (h : f.top.branches < branchLimit) (pc : Nat) (offset : Int16) :
    f.branch pc offset = match branchTarget pc offset f.top.block.length with
      | .error e => .failed e f
      | .ok target => .running (f.land target) := by
  unfold branch branchTarget
  dsimp only
  rw [if_neg (by omega)]
  split <;> rfl

/-- What follows where an activation ends depends on those that wait for it only. -/
theorem ends_onResult {f g : FlatMachine} (hcallers : f.callers = g.callers)
    {x : EStateM.Result InvocationError Machine (Option Value)}
    (h : (f.onResult x).Ends methods r) : (g.onResult x).Ends methods r := by
  obtain ⟨top, callers, statics, heap⟩ := f
  obtain rfl : callers = g.callers := hcallers
  cases x with
  | error e m =>
    unfold onResult Moved.Ends outermost withMachine at h ⊢
    dsimp only at h ⊢
    rw [h]
    cases g.callers <;> rfl
  | ok v m =>
    unfold onResult giveBack withMachine at h ⊢
    dsimp only at h ⊢
    cases hc : g.callers with
    | nil =>
      rw [hc] at h
      exact h
    | cons c callers =>
      rw [hc] at h
      exact h

/-- An activation is a run of the flat machine down to its end. -/
theorem halts_of_activate (hcall : Simulates methods call depth) (branches : Nat)
    {f : FlatMachine} {rest : Block} (hdepth : f.callers.length = depth)
    (hbranches : f.top.branches + branches = branchLimit)
    (hrest : f.top.block.drop f.top.frame.pc = rest)
    (h : (f.onResult (Invocation.activate call f.top.block branches rest f.machine)).Ends
      methods r) :
    f.Halts methods r := by
  refine halts_of_follow hcall hdepth hrest ?_
  rw [Invocation.activate_apply] at h
  cases hf : Invocation.follow call rest f.machine with
  | error e m =>
    rw [hf] at h
    exact h
  | ok exit m =>
    rw [hf] at h
    cases exit with
    | returned v => exact h
    | branched pc offset =>
      change ((f.withMachine m).branch pc offset).Ends methods r
      cases branches with
      | zero =>
        have hlimit : branchLimit ≤ (f.withMachine m).top.branches := Nat.le_of_eq hbranches.symm
        rw [branch_of_limit hlimit]
        exact h
      | succ branches =>
        have hlt : (f.withMachine m).top.branches < branchLimit := by
          change f.top.branches < branchLimit
          omega
        have hnext : f.top.branches + 1 + branches = branchLimit := by omega
        rw [branch_of_lt hlt]
        change (match branchTarget pc offset f.top.block.length with
          | .error e => Moved.failed e (f.withMachine m)
          | .ok target => .running ((f.withMachine m).land target)).Ends methods r
        dsimp only at h
        cases ht : branchTarget pc offset f.top.block.length with
        | error e =>
          rw [ht] at h
          exact h
        | ok target =>
          rw [ht] at h
          have hland := ends_onResult (f := f) (g := (f.withMachine m).land target) rfl h
          exact halts_of_activate hcall branches hdepth hnext rfl hland

/-- Giving a result back to a caller is resuming it, if the result is of the right kind. -/
theorem giveBack_cons (top caller : Activation) (method : MethodRef) (callers : List Caller)
    (m : Machine) (result : Option Value) :
    giveBack ⟨top, ⟨caller, method⟩ :: callers, m.statics, m.heap⟩ result =
      if result.map Value.kind ≠ method.result then
        .failed (.wrongResult method (result.map Value.kind))
          ⟨caller, callers, m.statics, m.heap⟩
      else
        onAnswer ⟨caller, callers, m.statics, m.heap⟩
          (Invocation.ofAction (Action.resume result) (m.withFrame caller.frame)) := by
  unfold giveBack
  dsimp only
  split
  · rfl
  · cases result with
    | none => rfl
    | some v =>
      rw [Invocation.resume_some_apply, Machine.frame_withFrame]
      dsimp only
      split <;> rfl

/-- Calls are simulated, when those that may be nested and the callers that there are add
up to the limit. -/
theorem simulates_call (calls depth : Nat) (hcalls : depth + calls = callLimit) :
    Simulates methods (Invocation.call methods calls) depth := by
  induction calls generalizing depth with
  | zero =>
    refine ⟨Invocation.pc_of_call, fun {f method args r} hdepth h => ?_⟩
    unfold FlatMachine.call
    rw [if_pos (by omega)]
    exact h
  | succ calls ih =>
    refine ⟨Invocation.pc_of_call, fun {f method args r} hdepth h => ?_⟩
    unfold FlatMachine.call
    rw [if_neg (by omega)]
    rw [Invocation.call_succ_apply] at h
    cases hbody : methods.find? method.name with
    | none =>
      rw [hbody] at h
      exact h
    | some body =>
      rw [hbody] at h
      dsimp only at h ⊢
      refine halts_of_activate (ih (depth + 1) (by omega)) branchLimit ?_ (Nat.zero_add _) rfl ?_
      · exact congrArg (· + 1) hdepth
      · change (onResult _ (Invocation.activate (Invocation.call methods calls) body branchLimit
          body (f.machine.withFrame (.new (.ofArguments args) f.machine.frame.maxStack)))).Ends
          methods r
        cases hact : Invocation.activate (Invocation.call methods calls) body branchLimit body
            (f.machine.withFrame (.new (.ofArguments args) f.machine.frame.maxStack)) with
        | error e m' =>
          rw [hact] at h
          exact h
        | ok result m' =>
          rw [hact] at h
          dsimp only at h
          change (giveBack ⟨_, ⟨f.top, method⟩ :: f.callers, m'.statics, m'.heap⟩ result).Ends
            methods r
          rw [giveBack_cons]
          split
          · rename_i hne
            rw [if_pos hne] at h
            exact h
          · rename_i heq
            rw [if_neg heq] at h
            exact h

/-- Where the activation that was started first ends, the flat machine halts. -/
private theorem ends_onResult_start (block : Block) (m : Machine)
    (r : EStateM.Result InvocationError Machine (Option Value)) :
    ((start block m).onResult r).Ends methods r := by
  cases r <;> rfl

/-- An invocation is a run of the flat machine: it returns, or fails, exactly as the flat
machine does that starts with the block in the same frame, and leaves the same frame,
static fields and objects behind. As an invocation always ends, so does the flat machine. -/
theorem halts_iff_invoke (methods : Methods) (block : Block) (m : Machine)
    (r : EStateM.Result InvocationError Machine (Option Value)) :
    (start block m).Halts methods r ↔ Invocation.invoke methods block m = r := by
  have hhalts : (start block m).Halts methods (Invocation.invoke methods block m) := by
    have hcall : Simulates methods (Invocation.call methods callLimit) 0 :=
      simulates_call callLimit 0 (Nat.zero_add _)
    refine halts_of_activate hcall branchLimit rfl (Nat.zero_add _) rfl ?_
    rw [Invocation.invoke_apply]
    exact ends_onResult_start block m _
  constructor
  · intro h
    exact hhalts.unique h
  · rintro rfl
    exact hhalts

end FlatMachine

end StackMachine
