import StackMachine.Invocation
import StackMachine.Proofs.Stepping

/-!
# How an invocation unfolds

The three layers of an invocation (following instructions, taking branches and
calling methods) are written as computations on the machine. Here they are equations:
what each layer gives on a machine is read off what the layer beneath it gives.
-/

namespace StackMachine

namespace Machine

/-- The machine at another instruction. -/
def withPc (m : Machine) (pc : Nat) : Machine := { m with frame := { m.frame with pc := pc } }

/-- The machine with another running activation. -/
def withFrame (m : Machine) (frame : Frame) : Machine := { m with frame := frame }

variable (m : Machine) (pc : Nat) (frame : Frame)

@[simp] theorem pc_withPc : (m.withPc pc).frame.pc = pc := rfl
@[simp] theorem frame_withFrame : (m.withFrame frame).frame = frame := rfl

end Machine

/-- The slots of an activation are its arguments, padded with zeros. -/
theorem Locals.slots_ofArguments (args : List Value) (n : Nat) :
    (ofArguments args).slots[n]? =
      (args[n]?).or (if n < minimum then some (.int 0) else none) := by
  rw [ofArguments, List.getElem?_toArray, List.getElem?_append, List.getElem?_replicate]
  by_cases hn : n < args.length
  · rw [if_pos hn, List.getElem?_eq_getElem hn, Option.some_or]
  · rw [if_neg hn, List.getElem?_eq_none (by omega), Option.none_or]
    by_cases hmin : n < minimum
    · rw [if_pos hmin, if_pos (by omega)]
    · rw [if_neg hmin, if_neg (by omega)]

/-- The instruction at an index is the first one of what the block has from there on. -/
theorem Block.of_drop_eq_cons {block rest : Block} {pc : Nat} {i : Instruction Value}
    (h : block.drop pc = i :: rest) : block[pc]? = some i ∧ block.drop (pc + 1) = rest := by
  constructor
  · rw [← List.head?_drop, h]
    rfl
  · rw [← List.tail_drop, h]
    rfl

/-- A step that completes moves on to the next index. -/
theorem Action.pc_of_step {i : Instruction Value} {m m' : Machine} {c : Control}
    (h : step i m = .ok c m') : m'.frame.pc = m.frame.pc + 1 := by
  cases completes_of_step h
  rfl

/-- A step that completes keeps the depth limit. -/
theorem Action.maxStack_of_step {i : Instruction Value} {m m' : Machine} {c : Control}
    (h : step i m = .ok c m') : m'.frame.maxStack = m.frame.maxStack := by
  cases completes_of_step h
  rfl

namespace Invocation

/-- A stretch that completes is followed by the next one, on the machine that it leaves behind. -/
theorem bind_apply {α β : Type} (x : Invocation α) (f : α → Invocation β) (m : Machine) :
    (x >>= f) m = match x m with
      | .ok a m' => f a m'
      | .error e m' => .error e m' := by
  change EStateM.bind x f m = _
  unfold EStateM.bind
  cases x m <;> rfl

variable (call : MethodRef → List Value → Invocation Unit) (block : Block) (m : Machine)

/-- What comes behind an instruction depends on its control event, and behind a call on the call. -/
theorem follow_cons_apply (i : Instruction Value) (rest : Block) :
    follow call (i :: rest) m = match Action.step i m with
      | .error e m' => .error (.failure e) m'
      | .ok .next m' => follow call rest m'
      | .ok (.return v) m' => .ok (.returned v) m'
      | .ok (.branch pc offset) m' => .ok (.branched pc offset) m'
      | .ok (.invoke method args) m' =>
        match call method args m' with
        | .ok _ m'' => follow call rest m''
        | .error e m'' => .error e m'' := by
  rw [follow, bind_apply]
  simp only [ofAction]
  rcases Action.step i m with ⟨_ | _ | ⟨method, args⟩ | _, m'⟩ | _
  · rfl
  · rfl
  · dsimp only
    rw [bind_apply]
    cases call method args m' <;> rfl
  · rfl
  · rfl

/-- An activation ends with a failure or a return, or it goes on where a branch leads. -/
theorem activate_apply (branches : Nat) (rest : Block) :
    activate call block branches rest m = match follow call rest m with
      | .error e m' => .error e m'
      | .ok (.returned v) m' => .ok v m'
      | .ok (.branched pc offset) m' =>
        match branches with
        | 0 => .error .tooManyBranches m'
        | branches + 1 =>
          match branchTarget pc offset block.length with
          | .error e => .error e m'
          | .ok target =>
            activate call block branches (block.drop target) (m'.withPc target) := by
  rw [activate.eq_def, bind_apply]
  rcases follow call rest m with ⟨_ | ⟨pc, offset⟩, m'⟩ | _
  · rfl
  · cases branches with
    | zero => rfl
    | succ branches =>
      dsimp only
      cases branchTarget pc offset block.length <;> rfl
  · rfl

/-- The present frame is back after a stretch in another one, also if that has failed. -/
theorem inFrame_apply {α : Type} (frame : Frame) (body : Invocation α) :
    inFrame frame body m = match body (m.withFrame frame) with
      | .ok x m' => .ok x (m'.withFrame m.frame)
      | .error e m' => .error e (m'.withFrame m.frame) := rfl

/-- The result of a call needs room on the stack of the caller. -/
theorem resume_some_apply (v : Value) :
    ofAction (Action.resume (some v)) m =
      if m.frame.maxStack ≤ m.frame.stack.length then
        .error (.failure ⟨m.frame.pc, .stackOverflow⟩) m
      else .ok () (m.withStack (v :: m.frame.stack)) := by
  rw [ofAction, Action.resume, Action.push_apply]
  by_cases hfull : m.frame.maxStack ≤ m.frame.stack.length
  · rw [if_pos hfull, if_pos hfull]
  · rw [if_neg hfull, if_neg hfull]

/-- A call runs the body of its method in a new frame, and checks the kind of the result. -/
theorem call_succ_apply (methods : Methods) (calls : Nat) (method : MethodRef)
    (args : List Value) :
    Invocation.call methods (calls + 1) method args m =
      match methods.find? method.name with
      | none => .error (.unknownMethod method.name) m
      | some body =>
        match activate (Invocation.call methods calls) body branchLimit body
            (m.withFrame (.new (.ofArguments args) m.frame.maxStack)) with
        | .error e m' => .error e (m'.withFrame m.frame)
        | .ok result m' =>
          if result.map Value.kind ≠ method.result then
            .error (.wrongResult method (result.map Value.kind)) (m'.withFrame m.frame)
          else ofAction (Action.resume result) (m'.withFrame m.frame) := by
  rw [Invocation.call]
  cases methods.find? method.name with
  | none => rfl
  | some body =>
    change (inFrame _ _ >>= _) m = _
    rw [bind_apply, inFrame_apply]
    dsimp only
    cases activate (Invocation.call methods calls) body branchLimit body
      (m.withFrame (.new (.ofArguments args) m.frame.maxStack)) with
    | error e m' => rfl
    | ok result m' =>
      dsimp only
      split <;> rfl

/-- An invocation is an activation that may make as many calls as there can be. -/
theorem invoke_apply (methods : Methods) :
    invoke methods block m =
      activate (Invocation.call methods callLimit) block branchLimit (block.drop m.frame.pc) m :=
  rfl

/-- A call changes nothing in the frame of the caller but the stack. -/
theorem frame_of_call {methods : Methods} {calls : Nat} {method : MethodRef} {args : List Value}
    {m m' : Machine} {u : Unit} (h : Invocation.call methods calls method args m = .ok u m') :
    ∃ stack, m'.frame = { m.frame with stack := stack } := by
  cases calls with
  | zero => cases h
  | succ calls =>
    rw [call_succ_apply] at h
    split at h
    · cases h
    · split at h
      · cases h
      · rename_i result n hact
        split at h
        · cases h
        · cases result with
          | none =>
            cases h
            exact ⟨m.frame.stack, rfl⟩
          | some v =>
            rw [resume_some_apply] at h
            split at h <;> cases h
            exact ⟨v :: m.frame.stack, rfl⟩

/-- A caller goes on where it was. -/
theorem pc_of_call {methods : Methods} {calls : Nat} {method : MethodRef} {args : List Value}
    {m m' : Machine} {u : Unit} (h : Invocation.call methods calls method args m = .ok u m') :
    m'.frame.pc = m.frame.pc := by
  obtain ⟨stack, hframe⟩ := frame_of_call h
  rw [hframe]

/-- The depth limit of an activation stays the same up to a branch or a return. -/
theorem maxStack_of_follow {methods : Methods} {calls : Nat} {rest : Block} {m m' : Machine}
    {exit : Exit} (h : follow (Invocation.call methods calls) rest m = .ok exit m') :
    m'.frame.maxStack = m.frame.maxStack := by
  induction rest generalizing m with
  | nil => cases h
  | cons i rest ih =>
    rw [follow_cons_apply] at h
    cases hs : Action.step i m with
    | error e n =>
      rw [hs] at h
      cases h
    | ok c n =>
      rw [hs] at h
      have hstep := Action.maxStack_of_step hs
      cases c with
      | next => exact (ih h).trans hstep
      | branch pc offset | «return» v =>
        cases h
        exact hstep
      | invoke method args =>
        dsimp only at h
        cases hc : Invocation.call methods calls method args n with
        | error e n' =>
          rw [hc] at h
          cases h
        | ok u n' =>
          rw [hc] at h
          obtain ⟨stack, hframe⟩ := frame_of_call hc
          rw [ih h, hframe]
          exact hstep

/-- The depth limit of an activation stays the same until it returns. -/
theorem maxStack_of_activate {methods : Methods} {calls : Nat} {block : Block} (branches : Nat)
    {rest : Block} {m m' : Machine} {v : Option Value}
    (h : activate (Invocation.call methods calls) block branches rest m = .ok v m') :
    m'.frame.maxStack = m.frame.maxStack := by
  rw [activate_apply] at h
  cases hf : follow (Invocation.call methods calls) rest m with
  | error e n =>
    rw [hf] at h
    cases h
  | ok exit n =>
    rw [hf] at h
    have hfollow := maxStack_of_follow hf
    cases exit with
    | returned v =>
      cases h
      exact hfollow
    | branched pc offset =>
      cases branches with
      | zero => cases h
      | succ branches =>
        dsimp only at h
        cases ht : branchTarget pc offset block.length with
        | error e =>
          rw [ht] at h
          cases h
        | ok target =>
          rw [ht] at h
          exact (maxStack_of_activate branches h).trans hfollow

end Invocation

end StackMachine
