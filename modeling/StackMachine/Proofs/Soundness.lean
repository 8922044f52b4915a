import StackMachine.Proofs.Invoking
import StackMachine.Proofs.Kinding

/-!
# Well-kinded programs do not go wrong

A step from a state of a well-kinded block ends in a state that follows in it, or fails
for a reason that kinds say nothing about. This is carried through the three layers of
an invocation: along the instructions up to a branch or a return by induction on them,
along the branches by induction on how many may be taken, and into calls by induction
on how many may be nested.
-/

namespace StackMachine

/-- What an instruction needs to have kinds after it. -/
theorem Instruction.of_after? {fields : String → Option Kind} {maxStack : Nat}
    {i : Instruction Value} {s t : KindState} (h : i.after? fields maxStack s = some t) :
    ∃ p taken rest slots, i.plan? = some p ∧ p.demand.take? s.stack = some (taken, rest) ∧
      i.need.retype? fields s.slots = some slots ∧
      (i.flow.result ++ p.gives taken = [] ∨
        rest.length + (i.flow.result ++ p.gives taken).length ≤ maxStack) ∧
      t = ⟨i.flow.result ++ (p.gives taken ++ rest), slots⟩ := by
  rw [after?, signature?_eq] at h
  obtain ⟨signature, hsig, h⟩ := Option.bind_eq_some_iff.1 h
  obtain ⟨p, hp, rfl⟩ := Option.map_eq_some_iff.1 hsig
  obtain ⟨⟨taken, rest⟩, htake, h⟩ := Option.bind_eq_some_iff.1 h
  obtain ⟨slots, hslots, h⟩ := Option.bind_eq_some_iff.1 h
  dsimp only at h
  split at h
  · rename_i hroom
    cases h
    exact ⟨p, taken, rest, slots, hp, htake, hslots, hroom, by rw [List.append_assoc]; rfl⟩
  · cases h

namespace Program

variable {P : Program} {block : Block} {states : List KindState} {m : Machine}

/-- What agrees with the kinds does so at every instruction. -/
theorem Agrees.withPc {s : KindState} (h : P.Agrees s m) (pc : Nat) : P.Agrees s (m.withPc pc) :=
  ⟨⟨h.statics, h.heap⟩, h.kinds, h.maxStack⟩

/-- What the activations share does not depend on the frame. -/
theorem Shared.withFrame (h : P.Shared m) (frame : Frame) : P.Shared (m.withFrame frame) :=
  ⟨h.statics, h.heap⟩

/-- The running activation is in the state of the next instruction. -/
def Runs (P : Program) (states : List KindState) (m : Machine) : Prop :=
  ∃ s, states[m.frame.pc]? = some s ∧ P.Agrees s m

/-- The running activation will be in the state of the next instruction once a method has
been called and its result has been pushed, for which there is room. -/
structure Awaits (P : Program) (states : List KindState) (method : MethodRef)
    (args : List Value) (s : KindState) (m : Machine) : Prop where
  callable : P.Callable method
  args : args.map Value.kind = method.params
  agrees : P.Agrees s m
  room : method.result = none ∨ s.stack.length + 1 ≤ P.maxStack
  next : states[m.frame.pc]? = some ⟨method.result.toList ++ s.stack, s.slots⟩

/-- What a control event of a block finds. -/
def Arrives (P : Program) (block : Block) (states : List KindState) : Control → Machine → Prop
  | .next, m => P.Runs states m
  | .branch pc offset, m =>
    ∃ target : Nat, (target : Int) = pc + offset.toInt ∧ P.Runs states (m.withPc target)
  | .invoke method args, m => ∃ s, P.Awaits states method args s m
  | .return v, m => (∃ i ∈ block, i.flow = .return (v.map Value.kind)) ∧ P.Shared m

/-- A step from the state at its index arrives in a state that follows, or fails for a
reason that kinds say nothing about. -/
theorem step_of_runs (hk : P.Kinded block states) {i : Instruction Value}
    (hi : block[m.frame.pc]? = some i) (hm : P.Runs states m) :
    match Action.step i m with
    | .ok c m' => P.Arrives block states c m'
    | .error e m' => e.cause.isDynamic ∧ P.Shared m' := by
  obtain ⟨s, hs, ha⟩ := hm
  obtain ⟨t, ht, hleads⟩ := hk.leads _ (List.getElem?_eq_some_iff.1 hi).1 i hi s hs
  obtain ⟨p, taken, rest, slots, hp, htake, hslots, hroom, rfl⟩ := Instruction.of_after? ht
  have hfamily := Instruction.family_of_plan? hp
  obtain rfl := ha.kinds
  obtain ⟨args, below, hstack, htaken, rfl⟩ := Arguments.exists_of_take? htake
  rw [← ha.statics] at hslots
  cases he : p.effect args m.store with
  | error c =>
    rw [Action.step_of_refusal hp hstack he]
    exact ⟨hfamily.isDynamic_of_refusal hslots ha.heap he, ha.statics, ha.heap⟩
  | ok e =>
    have hkinded := hfamily.kinded hslots ha.heap he
    have hpushes := hkinded.pushes
    rw [htaken] at hpushes
    have hlength : e.pushes.length = (p.gives taken).length := by
      rw [← hpushes, List.length_map, List.length_reverse]
    rw [List.length_map, List.length_append, ← hlength] at hroom
    have hfits : e.HasRoom below.length m.frame.maxStack := by
      rw [ha.maxStack]
      rcases hroom with hroom | hroom
      · rw [List.append_eq_nil_iff, ← List.length_eq_zero_iff (l := p.gives taken), ← hlength,
          List.length_eq_zero_iff] at hroom
        exact .inl hroom.2
      · exact .inr (by omega)
    rw [Action.step_of_effect hp hstack he hfits]
    have hshared : P.Shared (m.after e below) := ⟨hkinded.statics.trans ha.statics, hkinded.heap⟩
    -- What the instruction itself leaves, without the result of a call.
    have hafter : P.Agrees ⟨p.gives taken ++ below.map Value.kind, slots⟩ (m.after e below) := by
      refine ⟨hshared, ?_, ha.maxStack⟩
      rw [Frame.kinds, ← hpushes, ← List.map_append, ← hkinded.locals]
      rfl
    have hmove := hkinded.move
    dsimp only
    generalize hflow : i.flow = flow at hmove hleads hroom
    generalize e.move = move at hmove
    cases hmove with
    | next => exact ⟨_, hleads, hafter⟩
    | untaken offset => exact ⟨_, hleads.1, hafter⟩
    | taken offset =>
      obtain ⟨-, htarget, hstate⟩ := hleads
      exact ⟨_, Int.toNat_of_nonneg htarget, _, hstate, hafter.withPc _⟩
    | @call method values hvalues =>
      refine ⟨_, hleads.2, hvalues, hafter, ?_, hleads.1⟩
      rw [List.length_append, List.length_map, ← hlength]
      cases hresult : method.result with
      | none => exact .inl rfl
      | some k =>
        simp only [Flow.result, hresult, Option.toList, List.cons_append, reduceCtorEq,
          false_or, List.length_cons, List.length_nil] at hroom
        exact .inr (by omega)
    | «return» v => exact ⟨⟨i, List.mem_of_getElem? hi, hflow⟩, hshared⟩

/-- A stretch of an invocation ends as it should: with a result of which something is
known, or with an error that kinds say nothing about. -/
def Ends (P : Program) {α : Type} (Q : α → Machine → Prop) :
    EStateM.Result InvocationError Machine α → Prop
  | .ok a m => Q a m
  | .error e m => e.isDynamic ∧ P.Shared m

/-- Calls leave their results, and nothing else, on the stacks of those who wait for them. -/
def Answers (P : Program) (call : MethodRef → List Value → Invocation Unit) : Prop :=
  ∀ {states method args s m}, P.Awaits states method args s m →
    P.Ends (fun _ m' => m'.frame.pc = m.frame.pc ∧ P.Runs states m') (call method args m)

/-- What a stretch of an activation without branches ends with. -/
def Exits (P : Program) (block : Block) (states : List KindState) :
    Invocation.Exit → Machine → Prop
  | .returned v, m => P.Arrives block states (.return v) m
  | .branched pc offset, m => P.Arrives block states (.branch pc offset) m

variable {call : MethodRef → List Value → Invocation Unit}

/-- Following instructions ends at a branch or a return of the block. -/
theorem follow_of_runs (hk : P.Kinded block states) (hcall : P.Answers call) {rest : Block}
    (hrest : block.drop m.frame.pc = rest) (hm : P.Runs states m) :
    P.Ends (P.Exits block states) (Invocation.follow call rest m) := by
  induction rest generalizing m with
  | nil =>
    obtain ⟨s, hs, -⟩ := hm
    have hlt := (List.getElem?_eq_some_iff.1 hs).1
    rw [hk.length_eq] at hlt
    exact absurd (List.drop_eq_nil_iff.1 hrest) (Nat.not_le.2 hlt)
  | cons i rest ih =>
    obtain ⟨hi, hrest⟩ := Block.of_drop_eq_cons hrest
    rw [Invocation.follow_cons_apply]
    have hstep := step_of_runs hk hi hm
    cases hs : Action.step i m with
    | error e m' =>
      rw [hs] at hstep
      exact hstep
    | ok c m' =>
      rw [hs] at hstep
      rw [← Action.pc_of_step hs] at hrest
      cases c with
      | next => exact ih hrest hstep
      | branch pc offset => exact hstep
      | «return» v => exact hstep
      | invoke method args =>
        obtain ⟨s, hawaits⟩ := hstep
        have hanswer := hcall hawaits
        dsimp only
        cases hc : call method args m' with
        | error e m'' =>
          rw [hc] at hanswer
          exact hanswer
        | ok _ m'' =>
          rw [hc] at hanswer
          rw [← hanswer.1] at hrest
          exact ih hrest hanswer.2

/-- A branch to an index of the block is inside the block. -/
private theorem branchTarget_of_state (hk : P.Kinded block states) {pc target : Nat}
    {offset : Int16} {s : KindState} (htarget : (target : Int) = pc + offset.toInt)
    (hs : states[target]? = some s) : branchTarget pc offset block.length = .ok target := by
  have hlt := (List.getElem?_eq_some_iff.1 hs).1
  rw [hk.length_eq] at hlt
  unfold branchTarget
  dsimp only
  rw [← htarget, if_pos (by omega), Int.toNat_natCast]

/-- An activation returns, however many branches it may take, or fails as it should. -/
theorem activate_of_runs (hk : P.Kinded block states) (hcall : P.Answers call) (branches : Nat)
    {rest : Block} {m : Machine} (hrest : block.drop m.frame.pc = rest)
    (hm : P.Runs states m) :
    P.Ends (fun v => P.Arrives block states (.return v))
      (Invocation.activate call block branches rest m) := by
  rw [Invocation.activate_apply]
  have hends := follow_of_runs hk hcall hrest hm
  cases hf : Invocation.follow call rest m with
  | error e m' =>
    rw [hf] at hends
    exact hends
  | ok exit m' =>
    rw [hf] at hends
    cases exit with
    | returned v => exact hends
    | branched pc offset =>
      obtain ⟨target, htarget, s, hs, ha⟩ := hends
      cases branches with
      | zero => exact ⟨rfl, ha.statics, ha.heap⟩
      | succ branches =>
        dsimp only
        rw [branchTarget_of_state hk htarget hs]
        exact activate_of_runs hk hcall branches rfl ⟨s, hs, ha⟩

/-- Calls answer, however many may be nested. -/
theorem answers_call (hP : P.WellKinded) (calls : Nat) :
    P.Answers (Invocation.call P.methods calls) := by
  induction calls with
  | zero =>
    intro states method args s m h
    exact ⟨rfl, h.agrees.toShared⟩
  | succ calls ih =>
    intro states method args s m h
    obtain ⟨body, hbody, hstart, hreturns⟩ := h.callable
    rw [Invocation.call_succ_apply, hbody]
    dsimp only
    generalize hframe : Frame.new (.ofArguments args) m.frame.maxStack = frame
    have hruns : P.Runs (P.states method.name) (m.withFrame frame) := by
      subst hframe
      refine ⟨_, List.head?_eq_getElem? .. ▸ hstart, h.agrees.toShared.withFrame _, ?_,
        h.agrees.maxStack⟩
      rw [Frame.kinds, ← h.args, ← Locals.kinds_ofArguments]
      rfl
    have hstarts : body.drop (m.withFrame frame).frame.pc = body := by
      subst hframe
      rfl
    have hends := activate_of_runs (hP _ _ hbody) ih branchLimit hstarts hruns
    cases hact : Invocation.activate (Invocation.call P.methods calls) body branchLimit body
        (m.withFrame frame) with
    | error e m' =>
      rw [hact] at hends
      exact ⟨hends.1, hends.2.withFrame _⟩
    | ok result m' =>
      rw [hact] at hends
      obtain ⟨⟨i, hi, hflow⟩, hshared⟩ := hends
      have hreturn := hreturns i hi
      rw [hflow] at hreturn
      have hresult : result.map Value.kind = method.result := hreturn
      dsimp only
      rw [if_neg (Decidable.not_not.2 hresult)]
      cases result with
      | none =>
        refine ⟨rfl, _, h.next, hshared.withFrame _, ?_, h.agrees.maxStack⟩
        rw [← hresult]
        exact h.agrees.kinds
      | some v =>
        have hroom : ¬ m.frame.maxStack ≤ m.frame.stack.length := by
          have hlength := congrArg (·.stack.length) h.agrees.kinds
          simp only [Frame.kinds, List.length_map] at hlength
          rw [h.agrees.maxStack, hlength]
          rcases h.room with hnone | hle
          · rw [hnone] at hresult
            cases hresult
          · omega
        rw [Invocation.resume_some_apply, Machine.frame_withFrame, if_neg hroom]
        refine ⟨rfl, _, h.next, hshared.withFrame _, ?_, h.agrees.maxStack⟩
        rw [← hresult, ← h.agrees.kinds]
        rfl

/-- Well-kinded programs do not go wrong. Started in a state of a well-kinded block, an
invocation returns something that an instruction of the block returns, or it ends with
an error that kinds say nothing about: division by zero, an array index out of range, a
reference that is null or not to an array of the right kind, an array of negative
length, or too many branches or calls. -/
theorem invoke_ends (hP : P.WellKinded) (hk : P.Kinded block states) (hm : P.Runs states m) :
    match Invocation.invoke P.methods block m with
    | .ok v m' => (∃ i ∈ block, i.flow = .return (v.map Value.kind)) ∧ P.Shared m'
    | .error e m' => e.isDynamic ∧ P.Shared m' := by
  have hends := activate_of_runs hk (answers_call hP callLimit) branchLimit rfl hm
  change P.Ends (fun v => P.Arrives block states (.return v)) (Invocation.invoke P.methods block m)
    at hends
  cases hi : Invocation.invoke P.methods block m with
  | error e m' =>
    rw [hi] at hends
    exact hends
  | ok v m' =>
    rw [hi] at hends
    exact hends

/-- A method that adds up the numbers from its argument down to one in a loop, and a block
that calls it, keeps what it returns in a static field and returns it, go well. -/
theorem invoke_ends_sum :
    let sum : Block :=
      [⟨.constant (.int 1), .none⟩, ⟨.load .int none, .slot 0⟩, ⟨.arithmetic .add .int, .none⟩,
        ⟨.iinc, .increment 0 (-1)⟩, ⟨.load .int none, .slot 0⟩, ⟨.ifZero .ne, .branch (-4)⟩,
        ⟨.returnValue .int, .none⟩]
    let block : Block :=
      [⟨.bipush, .immediate 3⟩, ⟨.invokestatic, .method ⟨"sum", [.int], some .int⟩⟩,
        ⟨.putstatic, .field ⟨"total", .int⟩⟩, ⟨.getstatic, .field ⟨"total", .int⟩⟩,
        ⟨.returnValue .int, .none⟩]
    let slots := Locals.ofKinds []
    let m : Machine :=
      ⟨.new (.zeroed 8) 2, Statics.empty.define "total" (.int 0),
        (Heap.empty.alloc (.array (.zeroed .byte 4))).2⟩
    let P : Program :=
      ⟨.insert .empty "sum" sum, m.statics.kinds, 2, fun _ =>
        [⟨[], slots⟩, ⟨[.int], slots⟩, ⟨[.int, .int], slots⟩, ⟨[.int], slots⟩, ⟨[.int], slots⟩,
          ⟨[.int, .int], slots⟩, ⟨[.int], slots⟩]⟩
    let states : List KindState :=
      [⟨[], slots⟩, ⟨[.int], slots⟩, ⟨[.int], slots⟩, ⟨[], slots⟩, ⟨[.int], slots⟩]
    P.WellKinded ∧ P.Kinded block states ∧ P.Runs states m ∧
      match Invocation.invoke P.methods block m with
      | .ok v m' => (∃ i ∈ block, i.flow = .return (v.map Value.kind)) ∧ P.Shared m'
      | .error e m' => e.isDynamic ∧ P.Shared m' := by
  intro sum block slots m P states
  have hP : P.WellKinded := wellKinded_of_bodies (by decide)
  have hk : P.Kinded block states := by decide
  have hm : P.Runs states m := ⟨⟨[], slots⟩, rfl, ⟨rfl, Heap.Sound.empty.alloc rfl⟩, rfl, rfl⟩
  exact ⟨hP, hk, hm, invoke_ends hP hk hm⟩

end Program

end StackMachine
