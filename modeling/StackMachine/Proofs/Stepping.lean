import StackMachine.Proofs.Performing

/-!
# What a step can do

A step completes in one way and fails in four. It completes when the arguments are on
the stack, are not refused, and leave room for the results. It fails on an operand
that does not fit, on arguments that are missing or of a wrong kind, on arguments
that are refused, and on a stack without room. Everything about the machine before and
after a step follows from these five cases.
-/

namespace StackMachine

/-- The values can be pushed, one after another, onto a stack of some depth. -/
def Effect.HasRoom (e : Effect) (depth maxStack : Nat) : Prop :=
  e.pushes = [] ∨ depth + e.pushes.length ≤ maxStack

/-- The machine once an instruction has completed, when some values were left on the
stack beneath its arguments. -/
def Machine.after (m : Machine) (e : Effect) (below : List Value) : Machine where
  frame :=
    { m.frame with
      stack := e.pushes.reverse ++ below
      locals := e.store.locals
      pc := m.frame.pc + 1 }
  statics := e.store.statics
  heap := e.store.heap

/-- The machine a number of instructions further on, with another operand stack. -/
def Machine.past (m : Machine) (n : Nat) (stack : List Value) : Machine :=
  { m with frame := { m.frame with stack := stack, pc := m.frame.pc + n } }

/-- How a step completes. -/
inductive Completes (i : Instruction Value) (m : Machine) : Control → Machine → Prop where
  | intro {p : Plan} {args : Arguments p.demand} {below : List Value} {e : Effect}
      (plan : i.plan? = some p)
      (stack : m.frame.stack = args.values ++ below)
      (effect : p.effect args m.store = .ok e)
      (room : e.HasRoom below.length m.frame.maxStack) :
      Completes i m (e.move.control m.frame.pc) (m.after e below)

/-- How a step fails. -/
inductive Fails (i : Instruction Value) (m : Machine) : Failure → Machine → Prop where
  /-- The operand does not fit. -/
  | operand (plan : i.plan? = none) : Fails i m ⟨m.frame.pc, .badOperand i.opcode⟩ m
  /-- An argument is missing or of a wrong kind. -/
  | argument {p : Plan} {c : Cause} {n : Nat}
      (plan : i.plan? = some p)
      (taken : n ≤ p.demand.length)
      (cause : c = .stackUnderflow ∨ ∃ k found, c = .kindMismatch i.opcode k found) :
      Fails i m ⟨m.frame.pc, c⟩ (m.withStack (m.frame.stack.drop n))
  /-- The arguments are refused. -/
  | refused {p : Plan} {args : Arguments p.demand} {below : List Value} {c : Cause}
      (plan : i.plan? = some p)
      (stack : m.frame.stack = args.values ++ below)
      (effect : p.effect args m.store = .error c) :
      Fails i m ⟨m.frame.pc, c⟩ (m.withStack below)
  /-- The stack has no room for a result. -/
  | overflow {p : Plan} {args : Arguments p.demand} {below : List Value} {e : Effect} {n : Nat}
      (plan : i.plan? = some p)
      (stack : m.frame.stack = args.values ++ below)
      (effect : p.effect args m.store = .ok e)
      (pushed : n < e.pushes.length)
      (full : m.frame.maxStack ≤ below.length + n) :
      Fails i m ⟨m.frame.pc, .stackOverflow⟩
        ((m.withStore e.store).withStack ((e.pushes.take n).reverse ++ below))

namespace Action

variable {m m' : Machine}

/-- An action followed by another, by how the first one ends. -/
theorem bind_apply {α β : Type} (x : Action α) (f : α → Action β) (m : Machine) :
    (x >>= f) m = match x m with
      | .ok a m' => f a m'
      | .error e m' => .error e m' := by
  change EStateM.bind x f m = _
  unfold EStateM.bind
  cases x m <;> rfl

theorem pop_apply (m : Machine) :
    pop m = match m.frame.stack with
      | [] => .error ⟨m.frame.pc, .stackUnderflow⟩ m
      | v :: rest => .ok v (m.withStack rest) := by
  rw [pop, get_bind_apply]
  cases m.frame.stack <;> rfl

/-- Only a full stack has no room for another value. -/
theorem push_apply (v : Value) (m : Machine) :
    push v m =
      if m.frame.maxStack ≤ m.frame.stack.length then .error ⟨m.frame.pc, .stackOverflow⟩ m
      else .ok () (m.withStack (v :: m.frame.stack)) := by
  rw [push, get_bind_apply]
  split <;> rfl

/-- A value of another kind is taken off the stack although it is refused. -/
theorem popAs_apply (op : Opcode) (k : Kind) (m : Machine) :
    popAs op k m = match m.frame.stack with
      | [] => .error ⟨m.frame.pc, .stackUnderflow⟩ m
      | v :: rest =>
        match v.as? k with
        | some x => .ok x (m.withStack rest)
        | none => .error ⟨m.frame.pc, .kindMismatch op k v.kind⟩ (m.withStack rest) := by
  rw [popAs, bind_apply, pop_apply]
  cases m.frame.stack with
  | nil => rfl
  | cons v rest =>
    dsimp only
    cases v.as? k <;> rfl

/-- Arguments on top of the stack are taken. -/
theorem takeAll_of_stack (op : Opcode) {d : Demand} (args : Arguments d) {below : List Value}
    (h : m.frame.stack = args.values ++ below) :
    takeAll op d m = .ok args (m.withStack below) := by
  induction d generalizing m with
  | nil => exact congrArg (EStateM.Result.ok ()) (congrArg m.withStack h)
  | cons o d ih =>
    cases o with
    | none =>
      obtain ⟨v, args⟩ := args
      have ht := ih (m := m.withStack (args.values ++ below)) args rfl
      rw [takeAll_none, bind_apply, pop_apply, h]
      simp only [Arguments.values, List.cons_append]
      rw [bind_apply, ht]
      rfl
    | some k =>
      obtain ⟨x, args⟩ := args
      have ht := ih (m := m.withStack (args.values ++ below)) args rfl
      rw [takeAll_some, bind_apply, popAs_apply, h]
      simp only [Arguments.values, List.cons_append, Value.as?_of]
      rw [bind_apply, ht]
      rfl

/-- What is not taken from a stack is an argument that is missing or of a wrong kind. -/
theorem takeAll_cases (op : Opcode) (d : Demand) (m : Machine) :
    (∃ (args : Arguments d) (below : List Value), m.frame.stack = args.values ++ below) ∨
      ∃ n ≤ d.length, ∃ c, (c = .stackUnderflow ∨ ∃ k found, c = .kindMismatch op k found) ∧
        takeAll op d m = .error ⟨m.frame.pc, c⟩ (m.withStack (m.frame.stack.drop n)) := by
  induction d generalizing m with
  | nil => exact .inl ⟨(), m.frame.stack, rfl⟩
  | cons o d ih =>
    cases hs : m.frame.stack with
    | nil =>
      refine .inr ⟨0, Nat.zero_le _, .stackUnderflow, .inl rfl, ?_⟩
      have hm : m.withStack (List.drop 0 []) = m := by rw [List.drop_zero, ← hs]; rfl
      cases o with
      | none => rw [takeAll_none, bind_apply, pop_apply, hs, hm]
      | some k => rw [takeAll_some, bind_apply, popAs_apply, hs, hm]
    | cons v rest =>
      have hrest := ih (m.withStack rest)
      cases o with
      | none =>
        rcases hrest with ⟨args, below, h⟩ | ⟨n, hn, c, hc, h⟩
        · exact .inl ⟨(v, args), below, congrArg (v :: ·) h⟩
        · refine .inr ⟨n + 1, Nat.succ_le_succ hn, c, hc, ?_⟩
          rw [takeAll_none, bind_apply, pop_apply, hs]
          dsimp only
          rw [bind_apply, h]
          rfl
      | some k =>
        cases hv : v.as? k with
        | none =>
          refine .inr ⟨1, by simp, .kindMismatch op k v.kind, .inr ⟨k, v.kind, rfl⟩, ?_⟩
          rw [takeAll_some, bind_apply, popAs_apply, hs]
          simp only [hv]
          rfl
        | some x =>
          rcases hrest with ⟨args, below, h⟩ | ⟨n, hn, c, hc, h⟩
          · exact .inl ⟨(x, args), below, by
              rw [Value.as?_eq_some_iff.1 hv]
              exact congrArg (Value.of k x :: ·) h⟩
          · refine .inr ⟨n + 1, Nat.succ_le_succ hn, c, hc, ?_⟩
            rw [takeAll_some, bind_apply, popAs_apply, hs]
            simp only [hv]
            rw [bind_apply, h]
            rfl

/-- Values for which there is room are pushed. -/
theorem pushAll_of_room {vs : List Value} (m : Machine)
    (h : vs = [] ∨ m.frame.stack.length + vs.length ≤ m.frame.maxStack) :
    pushAll vs m = .ok () (m.withStack (vs.reverse ++ m.frame.stack)) := by
  induction vs generalizing m with
  | nil => rfl
  | cons v vs ih =>
    have hlen : m.frame.stack.length + (vs.length + 1) ≤ m.frame.maxStack := by simpa using h
    rw [pushAll, bind_apply, push_apply, if_neg (by omega)]
    dsimp only
    rw [ih _ (.inr (by simp; omega))]
    simp

/-- Values for which there is no room are pushed until the stack is full. -/
theorem pushAll_of_full {vs : List Value} (m : Machine) (hne : vs ≠ [])
    (h : m.frame.maxStack < m.frame.stack.length + vs.length) :
    ∃ n < vs.length, m.frame.maxStack ≤ m.frame.stack.length + n ∧
      pushAll vs m = .error ⟨m.frame.pc, .stackOverflow⟩
        (m.withStack ((vs.take n).reverse ++ m.frame.stack)) := by
  induction vs generalizing m with
  | nil => exact absurd rfl hne
  | cons v vs ih =>
    by_cases hfull : m.frame.maxStack ≤ m.frame.stack.length
    · refine ⟨0, by simp, hfull, ?_⟩
      rw [pushAll, bind_apply, push_apply, if_pos hfull]
      rfl
    · rw [List.length_cons] at h
      have hvs : vs ≠ [] := by
        rintro rfl
        simp at h
        omega
      obtain ⟨n, hn, hm, he⟩ := ih (m.withStack (v :: m.frame.stack)) hvs (by simp; omega)
      simp only [Machine.maxStack_withStack, Machine.stack_withStack, List.length_cons] at hm
      refine ⟨n + 1, by simp [hn], by omega, ?_⟩
      rw [pushAll, bind_apply, push_apply, if_neg hfull]
      dsimp only
      rw [he]
      simp

/-- What is pushed, if there is room for it, is all that a commit adds to the writes. -/
theorem commit_of_room {e : Effect} (m : Machine)
    (h : e.HasRoom m.frame.stack.length m.frame.maxStack) :
    commit e m = .ok (e.move.control m.frame.pc)
      ((m.withStore e.store).withStack (e.pushes.reverse ++ m.frame.stack)) := by
  change (pushAll e.pushes >>= fun _ => _) (m.withStore e.store) = _
  rw [bind_apply, pushAll_of_room (m.withStore e.store) h]
  rfl

/-- Without room the writes are done, and values pushed until the stack is full. -/
theorem commit_of_full {e : Effect} (m : Machine)
    (h : ¬ e.HasRoom m.frame.stack.length m.frame.maxStack) :
    ∃ n < e.pushes.length, m.frame.maxStack ≤ m.frame.stack.length + n ∧
      commit e m = .error ⟨m.frame.pc, .stackOverflow⟩
        ((m.withStore e.store).withStack ((e.pushes.take n).reverse ++ m.frame.stack)) := by
  obtain ⟨hne, hlt⟩ := not_or.1 h
  obtain ⟨n, hn, hfull, he⟩ := pushAll_of_full (m.withStore e.store) hne (Nat.not_le.1 hlt)
  refine ⟨n, hn, hfull, ?_⟩
  change (pushAll e.pushes >>= fun _ => _) (m.withStore e.store) = _
  rw [bind_apply, he]
  rfl

/-- Taken arguments decide how a plan is carried out. -/
theorem carryOut_of_stack (op : Opcode) {p : Plan} {args : Arguments p.demand}
    {below : List Value} (h : m.frame.stack = args.values ++ below) :
    carryOut op p m = match p.effect args m.store with
      | .ok e => commit e (m.withStack below)
      | .error c => .error ⟨m.frame.pc, c⟩ (m.withStack below) := by
  rw [carryOut, bind_apply, takeAll_of_stack op args h]
  dsimp only
  rw [consequence_bind_apply, Machine.store_withStack]
  cases p.effect args m.store <;> rfl

/-- A step is its performance, and one index further on when it completes. -/
theorem step_apply (i : Instruction Value) (m : Machine) :
    step i m = match perform i m with
      | .ok c m' => .ok c { m' with frame := { m'.frame with pc := m'.frame.pc + 1 } }
      | .error e m' => .error e m' := by
  rw [step, bind_apply]
  cases perform i m <;> rfl

/-- Every step completes or fails in one of the ways there are. -/
theorem step_cases (i : Instruction Value) (m : Machine) :
    (∃ c m', step i m = .ok c m' ∧ Completes i m c m') ∨
      ∃ e m', step i m = .error e m' ∧ Fails i m e m' := by
  rw [step_apply, perform_eq]
  cases hp : i.plan? with
  | none => exact .inr ⟨_, _, rfl, .operand hp⟩
  | some p =>
    rw [Option.elim_some]
    rcases takeAll_cases i.opcode p.demand m with ⟨args, below, hs⟩ | ⟨n, hn, c, hc, ht⟩
    · rw [carryOut_of_stack i.opcode hs]
      cases he : p.effect args m.store with
      | error c => exact .inr ⟨_, _, rfl, .refused hp hs he⟩
      | ok e =>
        dsimp only
        by_cases hr : e.HasRoom below.length m.frame.maxStack
        · rw [commit_of_room (m.withStack below) hr]
          exact .inl ⟨_, _, rfl, .intro hp hs he hr⟩
        · obtain ⟨n, hn, hfull, hcommit⟩ := commit_of_full (m.withStack below) hr
          rw [hcommit]
          exact .inr ⟨_, _, rfl, .overflow hp hs he hn hfull⟩
    · rw [carryOut, bind_apply, ht]
      exact .inr ⟨_, _, rfl, .argument hp hn hc⟩

/-- A step that has a result completes. -/
theorem completes_of_step {i : Instruction Value} {c : Control} (h : step i m = .ok c m') :
    Completes i m c m' := by
  rcases step_cases i m with ⟨c', n, hs, hc⟩ | ⟨e, n, hs, -⟩
  · rw [h] at hs
    cases hs
    exact hc
  · rw [h] at hs
    cases hs

/-- A step that has none fails. -/
theorem fails_of_step {i : Instruction Value} {e : Failure} (h : step i m = .error e m') :
    Fails i m e m' := by
  rcases step_cases i m with ⟨c, n, hs, -⟩ | ⟨e', n, hs, hf⟩
  · rw [h] at hs
    cases hs
  · rw [h] at hs
    cases hs
    exact hf

/-- A step completes when its arguments are there, not refused, and leave room. -/
theorem step_of_effect {i : Instruction Value} {p : Plan} {args : Arguments p.demand}
    {below : List Value} {e : Effect} (hp : i.plan? = some p)
    (hs : m.frame.stack = args.values ++ below) (he : p.effect args m.store = .ok e)
    (hr : e.HasRoom below.length m.frame.maxStack) :
    step i m = .ok (e.move.control m.frame.pc) (m.after e below) := by
  rw [step_apply, perform_eq, hp, Option.elim_some, carryOut_of_stack i.opcode hs, he]
  dsimp only
  rw [commit_of_room (m.withStack below) hr]
  rfl

/-- An instruction refuses its topmost argument for its kind, and takes it off the stack. -/
theorem step_of_kind_ne {i : Instruction Value} {p : Plan} {k : Kind} {d : Demand} {v : Value}
    {rest : List Value} (hp : i.plan? = some p) (hd : p.demand = some k :: d)
    (hstack : m.frame.stack = v :: rest) (hk : v.kind ≠ k) :
    step i m = .error ⟨m.frame.pc, .kindMismatch i.opcode k v.kind⟩ (m.withStack rest) := by
  obtain ⟨demand, gives, effect⟩ := p
  obtain rfl : demand = some k :: d := hd
  have hnone : v.as? k = none := by simpa using mt Value.isSome_as?_iff.1 hk
  rw [step_apply, perform_eq, hp, Option.elim_some, carryOut, bind_apply, takeAll_some,
    bind_apply, popAs_apply, hstack]
  dsimp only
  rw [hnone]

/-- A step fails when its arguments are there and refused. -/
theorem step_of_refusal {i : Instruction Value} {p : Plan} {args : Arguments p.demand}
    {below : List Value} {c : Cause} (hp : i.plan? = some p)
    (hs : m.frame.stack = args.values ++ below) (he : p.effect args m.store = .error c) :
    step i m = .error ⟨m.frame.pc, c⟩ (m.withStack below) := by
  rw [step_apply, perform_eq, hp, Option.elim_some, carryOut_of_stack i.opcode hs, he]

/-- A step fails when its results have no room. -/
theorem step_of_full {i : Instruction Value} {p : Plan} {args : Arguments p.demand}
    {below : List Value} {e : Effect} (hp : i.plan? = some p)
    (hs : m.frame.stack = args.values ++ below) (he : p.effect args m.store = .ok e)
    (hr : ¬ e.HasRoom below.length m.frame.maxStack) :
    ∃ n < e.pushes.length, step i m = .error ⟨m.frame.pc, .stackOverflow⟩
      ((m.withStore e.store).withStack ((e.pushes.take n).reverse ++ below)) := by
  obtain ⟨n, hn, -, hcommit⟩ := commit_of_full (m.withStack below) hr
  refine ⟨n, hn, ?_⟩
  rw [step_apply, perform_eq, hp, Option.elim_some, carryOut_of_stack i.opcode hs, he]
  dsimp only
  rw [hcommit]
  rfl

end Action

end StackMachine
