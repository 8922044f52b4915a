import StackMachine.Proofs.Comparing

/-!
# Compact instructions

Some instructions say in less space what others say too: those for the first slots and for small
numbers, the increment of a slot, the tests for zero and for null, and the negation of ints. They
do the same as the others, or the same as several of them together where the stack has room for
what these put there. Where the one fails so do the others, and for the same reason.
-/

namespace StackMachine

/-- The reason for a failure with another opcode named in it. -/
def Cause.naming (op : Opcode) : Cause → Cause
  | .kindMismatch _ expected found => .kindMismatch op expected found
  | .notAnArray _ => .notAnArray op
  | .arrayKindMismatch _ found => .arrayKindMismatch op found
  | .badOperand _ => .badOperand op
  | c => c

/-- The control event further on in a block. -/
def Control.further (n : Nat) : Control → Control
  | .branch pc offset => .branch (pc + n) offset
  | c => c

@[simp] theorem Machine.stack_past (m : Machine) (n : Nat) (stack : List Value) :
    (m.past n stack).frame.stack = stack := rfl

@[simp] theorem Machine.locals_past (m : Machine) (n : Nat) (stack : List Value) :
    (m.past n stack).frame.locals = m.frame.locals := rfl

/-- An outcome is the same as another, except that it may name another opcode as it fails. -/
inductive SameOutcome :
    EStateM.Result Failure Machine Control → EStateM.Result Failure Machine Control → Prop where
  | ok (c : Control) (m : Machine) : SameOutcome (.ok c m) (.ok c m)
  | error (pc : Nat) (c : Cause) (op : Opcode) (m : Machine) :
      SameOutcome (.error ⟨pc, c⟩ m) (.error ⟨pc, c.naming op⟩ m)

/-- An outcome is the same as another a number of instructions further on. If it is a failure,
then it is one for the same reason, wherever in between and whatever is left on the stack. -/
inductive SameFurtherOn (n : Nat) :
    EStateM.Result Failure Machine Control → EStateM.Result Failure Machine Control → Prop where
  | ok (c : Control) (m : Machine) :
      SameFurtherOn n (.ok c m) (.ok (c.further n) (m.past n m.frame.stack))
  | error (c : Cause) (op : Opcode) {pc pc' : Nat} {m m' : Machine} :
      SameFurtherOn n (.error ⟨pc, c⟩ m) (.error ⟨pc', c.naming op⟩ m')

/-- A reason names no other opcode than some opcode. -/
theorem Cause.exists_naming_eq (c : Cause) : ∃ op, c.naming op = c := by
  cases c with
  | kindMismatch op | notAnArray op | arrayKindMismatch op | badOperand op => exact ⟨op, rfl⟩
  | _ => exact ⟨.pop, rfl⟩

theorem SameOutcome.refl (r : EStateM.Result Failure Machine Control) : SameOutcome r r := by
  cases r with
  | ok c m => exact .ok c m
  | error e m =>
    obtain ⟨op, hop⟩ := e.cause.exists_naming_eq
    have hsame := SameOutcome.error e.pc e.cause op m
    rwa [hop] at hsame

namespace Action

variable {i j : Instruction Value} {m : Machine} {k : Kind} {index : UInt16} {v : Value}
  {rest : List Value}

/-! ### Steps of some families -/

/-- Instructions that push the same value do the same. -/
theorem step_eq_of_pushing (hi : i.plan? = some (.pushing v)) (hj : j.plan? = some (.pushing v)) :
    step i m = step j m := by
  rw [step_apply, step_apply, perform_eq, perform_eq, hi, hj, Option.elim_some, Option.elim_some,
    carryOut_pushing, carryOut_pushing]

/-- There is nothing to take from an empty stack. -/
theorem takeAll_of_nil (op : Opcode) (o : Option Kind) (d : Demand) (hstack : m.frame.stack = []) :
    takeAll op (o :: d) m = .error ⟨m.frame.pc, .stackUnderflow⟩ m := by
  cases o with
  | none => rw [takeAll_none, bind_apply, pop_apply, hstack]
  | some k => rw [takeAll_some, bind_apply, popAs_apply, hstack]

/-- A value of another kind is taken and refused. -/
theorem takeAll_of_kind_ne (op : Opcode) (d : Demand) (hstack : m.frame.stack = v :: rest)
    (hk : v.kind ≠ k) :
    takeAll op (some k :: d) m =
      .error ⟨m.frame.pc, .kindMismatch op k v.kind⟩ (m.withStack rest) := by
  have hnone : v.as? k = none := by simpa using mt Value.isSome_as?_iff.1 hk
  rw [takeAll_some, bind_apply, popAs_apply, hstack]
  dsimp only
  rw [hnone]

/-- What is refused behind the first argument is refused with it. -/
theorem takeAll_cons_error {op : Opcode} {o : Option Kind} {d : Demand} {e : Failure}
    {m' : Machine} (hstack : m.frame.stack = v :: rest) (ho : ∀ k ∈ o, v.kind = k)
    (h : takeAll op d (m.withStack rest) = .error e m') :
    takeAll op (o :: d) m = .error e m' := by
  cases o with
  | none =>
    rw [takeAll_none, bind_apply, pop_apply, hstack]
    dsimp only
    rw [bind_apply, h]
  | some k =>
    obtain ⟨x, hx⟩ := Option.isSome_iff_exists.1 (Value.isSome_as?_iff.2 (ho k rfl))
    rw [takeAll_some, bind_apply, popAs_apply, hstack]
    dsimp only
    rw [hx]
    dsimp only
    rw [bind_apply, h]

/-- An instruction fails if its arguments cannot be taken. -/
theorem step_of_takeAll_error {p : Plan} {e : Failure} {m' : Machine} (hi : i.plan? = some p)
    (h : takeAll i.opcode p.demand m = .error e m') : step i m = .error e m' := by
  rw [step_apply, perform_eq, hi, Option.elim_some, carryOut, bind_apply, h]

/-- Where there is room for it a value is pushed. -/
theorem computes_of_pushing (hi : i.plan? = some (.pushing v)) : i.Computes [] v :=
  computes_of_effect hi () fun _ => rfl

/-- A conversion of a number, or its negation, computes what it gives. -/
theorem computes_of_unary {k t : Kind} {f : k.Carrier → t.Carrier}
    (hi : i.plan? = some (.unary k t f)) {a : k.Carrier} {x : t.Carrier} (hx : f a = x) :
    i.Computes [.of k a] (.of t x) := by
  subst hx
  let args : Arguments (Plan.unary k t f).demand := (a, ())
  exact computes_of_effect hi args fun _ => rfl

/-- What comes of pushing a slot. -/
theorem step_loading (hi : i.plan? = some (.loading i.opcode k index)) (m : Machine) :
    step i m = match m.frame.locals.load index with
      | .error f => .error ⟨m.frame.pc, .fault f⟩ m
      | .ok v =>
        if v.kind = k then
          if m.frame.maxStack ≤ m.frame.stack.length then .error ⟨m.frame.pc, .stackOverflow⟩ m
          else .ok .next (m.past 1 (v :: m.frame.stack))
        else .error ⟨m.frame.pc, .kindMismatch i.opcode k v.kind⟩ m := by
  let args : Arguments (Plan.loading i.opcode k index).demand := ()
  have hargs : m.frame.stack = args.values ++ m.frame.stack := rfl
  have heffect : (Plan.loading i.opcode k index).effect args m.store =
      (m.frame.locals.load index).mapError .fault >>= fun v =>
        if v.kind = k then .ok (.push v m.store) else .error (.kindMismatch i.opcode k v.kind) :=
    rfl
  cases hv : m.frame.locals.load index with
  | error f =>
    rw [hv] at heffect
    exact step_of_refusal hi hargs heffect
  | ok v =>
    rw [hv] at heffect
    simp only [Except.mapError, bind, Except.bind] at heffect ⊢
    split <;> rename_i hk
    · rw [if_pos hk] at heffect
      split <;> rename_i hfull
      · have hroom : ¬ (Effect.push v m.store).HasRoom m.frame.stack.length m.frame.maxStack := by
          rintro (hnil | hle)
          · cases hnil
          · exact absurd (Nat.lt_of_succ_le hle) (Nat.not_lt.2 hfull)
        obtain ⟨n, hn, hstep⟩ := step_of_full hi hargs heffect hroom
        obtain rfl : n = 0 := Nat.lt_one_iff.1 hn
        exact hstep
      · exact step_of_effect hi hargs heffect (.inr (Nat.not_le.1 hfull))
    · rw [if_neg hk] at heffect
      exact step_of_refusal hi hargs heffect

/-- What comes of popping into a slot. -/
theorem step_storing (hi : i.plan? = some (.storing k index)) (m : Machine) :
    step i m = match m.frame.stack with
      | [] => .error ⟨m.frame.pc, .stackUnderflow⟩ m
      | v :: rest =>
        if v.kind = k then
          match m.frame.locals.store index v with
          | .error f => .error ⟨m.frame.pc, .fault f⟩ (m.withStack rest)
          | .ok locals => .ok .next (m.after (.write { m.store with locals := locals }) rest)
        else .error ⟨m.frame.pc, .kindMismatch i.opcode k v.kind⟩ (m.withStack rest) := by
  cases hstack : m.frame.stack with
  | nil => exact step_of_takeAll_error hi (takeAll_of_nil _ _ _ hstack)
  | cons v rest =>
    dsimp only
    split <;> rename_i hk
    · obtain ⟨x, hv⟩ := Value.exists_of_kind hk
      let args : Arguments (Plan.storing k index).demand := (x, ())
      have hargs : m.frame.stack = args.values ++ rest := by rw [hstack, hv]; rfl
      have heffect : (Plan.storing k index).effect args m.store =
          (m.frame.locals.store index v).mapError .fault >>= fun locals =>
            .ok (.write { m.store with locals := locals }) := by
        rw [hv]
        rfl
      cases hl : m.frame.locals.store index v with
      | error f =>
        rw [hl] at heffect
        exact step_of_refusal hi hargs heffect
      | ok locals =>
        rw [hl] at heffect
        exact step_of_effect hi hargs heffect (.inl rfl)
    · exact step_of_kind_ne hi rfl hstack hk

/-- What comes of adding to a slot. -/
theorem step_incrementing (index : UInt16) (delta : Int16) (m : Machine) :
    step ⟨.iinc, .increment index delta⟩ m = match m.frame.locals.load index with
      | .error f => .error ⟨m.frame.pc, .fault f⟩ m
      | .ok (.int a) =>
        match m.frame.locals.store index (.int (increment a delta)) with
        | .error f => .error ⟨m.frame.pc, .fault f⟩ m
        | .ok locals =>
          .ok .next (m.after (.write { m.store with locals := locals }) m.frame.stack)
      | .ok v => .error ⟨m.frame.pc, .kindMismatch .iinc .int v.kind⟩ m := by
  let p : Plan := .incrementing .iinc index delta
  have hp : Instruction.plan? ⟨.iinc, .increment index delta⟩ = some p := rfl
  let args : Arguments p.demand := ()
  have hargs : m.frame.stack = args.values ++ m.frame.stack := rfl
  obtain ⟨next, heffect, hint, hother⟩ : ∃ next : Value → Except Cause Effect,
      p.effect args m.store = (m.frame.locals.load index).mapError .fault >>= next ∧
        (∀ a, next (.int a) =
          (m.frame.locals.store index (.int (increment a delta))).mapError .fault >>= fun locals =>
            .ok (.write { m.store with locals := locals })) ∧
          ∀ v, v.kind ≠ .int → next v = .error (.kindMismatch .iinc .int v.kind) := by
    refine ⟨_, rfl, fun a => rfl, fun v hne => ?_⟩
    cases v with
    | int a => exact absurd rfl hne
    | long | float | double | reference => rfl
  cases hv : m.frame.locals.load index with
  | error f =>
    rw [hv] at heffect
    exact step_of_refusal hp hargs heffect
  | ok v =>
    rw [hv] at heffect
    cases v with
    | int a =>
      dsimp only
      replace heffect := heffect.trans (hint a)
      cases hl : m.frame.locals.store index (.int (increment a delta)) with
      | error f =>
        rw [hl] at heffect
        exact step_of_refusal hp hargs heffect
      | ok locals =>
        rw [hl] at heffect
        exact step_of_effect hp hargs heffect (.inl rfl)
    | long | float | double | reference =>
      exact step_of_refusal hp hargs (heffect.trans (hother _ nofun))

/-! ### One for one -/

/-- A slot in the opcode is loaded like one in the operand. -/
theorem load_implied (k : Kind) (n : Fin 4) (operand : Operand Value) (m : Machine) :
    SameOutcome (step ⟨.load k (some n), operand⟩ m)
      (step ⟨.load k none, .slot (UInt16.ofNat n)⟩ m) := by
  have himplied : Instruction.plan? ⟨.load k (some n), operand⟩ =
    some (.loading (.load k (some n)) k (UInt16.ofNat n)) := rfl
  have hgeneral : Instruction.plan? ⟨.load k none, .slot (UInt16.ofNat n)⟩ =
    some (.loading (.load k none) k (UInt16.ofNat n)) := rfl
  rw [step_loading himplied, step_loading hgeneral]
  cases m.frame.locals.load (UInt16.ofNat n) with
  | error f => exact .refl _
  | ok v =>
    dsimp only
    split
    · exact .refl _
    · exact .error m.frame.pc (.kindMismatch _ k v.kind) (.load k none) m

theorem store_implied (k : Kind) (n : Fin 4) (operand : Operand Value) (m : Machine) :
    SameOutcome (step ⟨.store k (some n), operand⟩ m)
      (step ⟨.store k none, .slot (UInt16.ofNat n)⟩ m) := by
  have himplied : Instruction.plan? ⟨.store k (some n), operand⟩ =
    some (.storing k (UInt16.ofNat n)) := rfl
  have hgeneral : Instruction.plan? ⟨.store k none, .slot (UInt16.ofNat n)⟩ =
    some (.storing k (UInt16.ofNat n)) := rfl
  rw [step_storing himplied, step_storing hgeneral]
  cases m.frame.stack with
  | nil => exact .refl _
  | cons v rest =>
    dsimp only
    split
    · exact .refl _
    · exact .error m.frame.pc (.kindMismatch _ k v.kind) (.store k none) (m.withStack rest)

/-- A byte is pushed as it is. -/
theorem plan?_bipush {n : Int32} (h : -128 ≤ n.toInt ∧ n.toInt ≤ 127) :
    Instruction.plan? ⟨.bipush, .immediate n⟩ = some (.pushing (.int n)) :=
  congrArg (Option.map _) (if_pos h)

theorem plan?_sipush {n : Int32} (h : -32768 ≤ n.toInt ∧ n.toInt ≤ 32767) :
    Instruction.plan? ⟨.sipush, .immediate n⟩ = some (.pushing (.int n)) :=
  congrArg (Option.map _) (if_pos h)

/-- The small constants of kind int are those from minus one to five. -/
theorem value_smallConstant {n : Fin 7} {v : Int32} (h : v.toInt = n.val - 1) :
    (SmallConstant.int n).value = .int v := by
  have hall : ∀ n : Fin 7, (Int32.ofNat n.val - 1).toInt = n.val - 1 := by decide
  exact congrArg Value.int (Int32.toInt_inj.1 ((hall n).trans h.symm))

/-! ### One for several -/

/-- A run goes on behind an instruction that completes. -/
theorem runAll_cons_of_next {m' : Machine} {block : Block} (h : step i m = .ok .next m') :
    runAll (i :: block) m = runAll block m' := by
  rw [runAll_cons_apply, h]

/-- It ends with an instruction that fails. -/
theorem runAll_cons_of_error {e : Failure} {m' : Machine} {block : Block}
    (h : step i m = .error e m') : runAll (i :: block) m = .error e m' := by
  rw [runAll_cons_apply, h]

theorem runAll_singleton (i : Instruction Value) (m : Machine) : runAll [i] m = step i m := by
  rw [runAll_cons_apply]
  rcases step i m with ⟨_ | _ | _ | _, m'⟩ | _ <;> rfl

/-- What an instruction computes is on top of the stack for those behind it. -/
theorem runAll_of_computes {args below : List Value} {block : Block} (h : i.Computes args v)
    (hstack : m.frame.stack = args ++ below) (hroom : below.length < m.frame.maxStack) :
    runAll (i :: block) m = runAll block (m.past 1 (v :: below)) :=
  runAll_cons_of_next (h m below hstack hroom)

/-- An increment does what pushing the slot and the number, adding them, and popping into the slot
do. -/
theorem increment_furtherOn (hroom : m.frame.stack.length + 2 ≤ m.frame.maxStack) (index : UInt16)
    (delta : Int16) :
    SameFurtherOn 3 (step ⟨.iinc, .increment index delta⟩ m)
      (runAll [⟨.load .int none, .slot index⟩, ⟨.sipush, .immediate delta.toInt32⟩,
        ⟨.arithmetic .add .int, .none⟩, ⟨.store .int none, .slot index⟩] m) := by
  have hload := step_loading (i := ⟨.load .int none, .slot index⟩) rfl m
  rw [step_incrementing]
  cases hv : m.frame.locals.load index with
  | error f =>
    rw [hv] at hload
    rw [runAll_cons_of_error hload]
    exact .error (.fault f) .pop
  | ok v =>
    rw [hv] at hload
    by_cases hk : v.kind = .int
    · obtain ⟨a, rfl⟩ : ∃ a, v = .int a := Value.exists_of_kind hk
      have hpush : ¬ m.frame.maxStack ≤ m.frame.stack.length := by omega
      replace hload := hload.trans ((if_pos rfl).trans (if_neg hpush))
      have hdelta : -32768 ≤ delta.toInt32.toInt ∧ delta.toInt32.toInt ≤ 32767 := by
        rw [Int16.toInt_toInt32]
        exact ⟨delta.le_toInt, Int.lt_add_one_iff.1 delta.toInt_lt⟩
      have hsipush : Instruction.Computes ⟨.sipush, .immediate delta.toInt32⟩ []
          (.int delta.toInt32) := computes_of_pushing (plan?_sipush hdelta)
      have hadd : Instruction.Computes ⟨.arithmetic .add .int, .none⟩
          [.int delta.toInt32, .int a] (.int (increment a delta)) :=
        computes_of_binary (k := .int) (t := .int) rfl rfl
      have hrun : runAll [⟨.load .int none, .slot index⟩, ⟨.sipush, .immediate delta.toInt32⟩,
          ⟨.arithmetic .add .int, .none⟩, ⟨.store .int none, .slot index⟩] m =
            step ⟨.store .int none, .slot index⟩
              (m.past 3 (.int (increment a delta) :: m.frame.stack)) := by
        calc
          _ = runAll _ (m.past 1 (.int a :: m.frame.stack)) := runAll_cons_of_next hload
          _ = runAll _ (m.past 2 (.int delta.toInt32 :: .int a :: m.frame.stack)) :=
            runAll_of_computes hsipush rfl (Nat.lt_of_succ_le hroom)
          _ = runAll _ (m.past 3 (.int (increment a delta) :: m.frame.stack)) :=
            runAll_of_computes hadd rfl (Nat.not_le.1 hpush)
          _ = _ := runAll_singleton _ _
      have hstore : Instruction.plan? ⟨.store .int none, .slot index⟩ =
        some (.storing .int index) := rfl
      rw [hrun, step_storing hstore]
      simp only [Machine.stack_past, Machine.locals_past, Value.kind, if_true]
      cases m.frame.locals.store index (.int (increment a delta)) with
      | error f => exact .error (.fault f) .pop
      | ok locals => exact .ok .next _
    · replace hload := hload.trans (if_neg hk)
      rw [runAll_cons_of_error hload]
      cases v with
      | int a => exact absurd rfl hk
      | _ => exact .error (.kindMismatch .iinc .int _) (.load .int none)

/-- Branching on one argument does what pushing another and branching on both do. -/
theorem branching_furtherOn {p : Instruction Value} {x : k.Carrier}
    {test : Arguments [some k] → Bool} {test' : Arguments [some k, some k] → Bool} {offset : Int16}
    (hi : i.plan? = some (.branching [some k] test offset))
    (hj : j.plan? = some (.branching [some k, some k] test' offset))
    (hp : p.Computes [] (.of k x)) (htest : ∀ a, test' (x, a, ()) = test (a, ()))
    (hroom : m.frame.stack.length < m.frame.maxStack) :
    SameFurtherOn 1 (step i m) (runAll [p, j] m) := by
  have hx : ∀ k' ∈ some k, (Value.of k x).kind = k' := by simp
  cases hstack : m.frame.stack with
  | nil =>
    rw [runAll_of_computes hp hstack (hstack ▸ hroom), runAll_singleton,
      step_of_takeAll_error hi (takeAll_of_nil _ _ _ hstack),
      step_of_takeAll_error hj (takeAll_cons_error rfl hx (takeAll_of_nil _ _ _ rfl))]
    exact .error .stackUnderflow .pop
  | cons v rest =>
    rw [runAll_of_computes hp hstack (hstack ▸ hroom), runAll_singleton]
    by_cases hk : v.kind = k
    · obtain ⟨a, rfl⟩ := Value.exists_of_kind hk
      rw [branches_of_branching hi (a, ()) m rest hstack,
        branches_of_branching hj (x, a, ()) _ rest rfl, htest]
      cases test (a, ()) with
      | false => exact .ok .next _
      | true => exact .ok (.branch m.frame.pc offset) _
    · rw [step_of_takeAll_error hi (takeAll_of_kind_ne _ _ hstack hk),
        step_of_takeAll_error hj (takeAll_cons_error rfl hx (takeAll_of_kind_ne _ _ rfl hk))]
      exact .error (.kindMismatch i.opcode k v.kind) j.opcode

/-- Negating an int does what pushing zero, exchanging, and subtracting do. -/
theorem negate_furtherOn (hroom : m.frame.stack.length < m.frame.maxStack)
    (operand : Operand Value) :
    SameFurtherOn 2 (step ⟨.negate .int, operand⟩ m)
      (runAll [⟨.constant (.int 1), .none⟩, ⟨.swap, .none⟩, ⟨.arithmetic .sub .int, .none⟩] m) := by
  have hzero : Instruction.Computes ⟨.constant (.int 1), .none⟩ [] (.int 0) :=
    computes_of_pushing rfl
  have hnegate : Instruction.plan? ⟨.negate .int, operand⟩ =
    some (.unary .int .int Numeric.int.negate) := rfl
  have hswap : Instruction.plan? ⟨.swap, .none⟩ = some .exchanging := rfl
  have hsub : Instruction.plan? ⟨.arithmetic .sub .int, .none⟩ =
    some (.binary .int .int (Arithmetic.sub.apply .int)) := rfl
  cases hstack : m.frame.stack with
  | nil =>
    rw [runAll_of_computes hzero hstack (hstack ▸ hroom),
      step_of_takeAll_error hnegate (takeAll_of_nil _ _ _ hstack),
      runAll_cons_of_error (step_of_takeAll_error hswap
        (takeAll_cons_error rfl (by simp) (takeAll_of_nil _ _ _ rfl)))]
    exact .error .stackUnderflow .pop
  | cons v rest =>
    have hlt : rest.length + 1 < m.frame.maxStack := by rwa [hstack] at hroom
    let args : Arguments Plan.exchanging.demand := (.int 0, v, ())
    have hargs : (m.past 1 (.int 0 :: v :: rest)).frame.stack = args.values ++ rest := rfl
    have hexchange : step ⟨.swap, .none⟩ (m.past 1 (.int 0 :: v :: rest)) =
        .ok .next (m.past 2 (v :: .int 0 :: rest)) :=
      step_of_effect hswap hargs rfl (.inr hlt)
    rw [runAll_of_computes hzero hstack hlt, runAll_cons_of_next hexchange, runAll_singleton]
    by_cases hk : v.kind = .int
    · obtain ⟨a, rfl⟩ : ∃ a, v = .int a := Value.exists_of_kind hk
      have hnegated : Instruction.Computes ⟨.negate .int, operand⟩ [.int a] (.int (-a)) :=
        computes_of_unary (k := .int) (t := .int) rfl rfl
      have hsubtracted : Instruction.Computes ⟨.arithmetic .sub .int, .none⟩ [.int a, .int 0]
          (.int (-a)) :=
        computes_of_binary (k := .int) (t := .int) rfl
          (congrArg Except.ok (Int32.zero_sub a))
      rw [hnegated m rest hstack (Nat.lt_of_succ_lt hlt),
        hsubtracted (m.past 2 (.int a :: .int 0 :: rest)) rest rfl (Nat.lt_of_succ_lt hlt)]
      exact .ok .next _
    · rw [step_of_takeAll_error hnegate (takeAll_of_kind_ne _ _ hstack hk),
        step_of_takeAll_error hsub (takeAll_of_kind_ne _ _ rfl hk)]
      exact .error (.kindMismatch _ .int v.kind) (.arithmetic .sub .int)

end Action

open StackMachine.Action in
/-- In a machine each compact form does what the general forms do that it stands for. -/
structure CompactFormsAgree (m : Machine) : Prop where
  /-- Loads from the first slots. -/
  load : ∀ (k : Kind) (n : Fin 4) (operand : Operand Value),
    SameOutcome (step ⟨.load k (some n), operand⟩ m)
      (step ⟨.load k none, .slot (UInt16.ofNat n)⟩ m)
  /-- Stores into the first slots. -/
  store : ∀ (k : Kind) (n : Fin 4) (operand : Operand Value),
    SameOutcome (step ⟨.store k (some n), operand⟩ m)
      (step ⟨.store k none, .slot (UInt16.ofNat n)⟩ m)
  /-- Ints from minus one to five, in every form that there is. -/
  constant : ∀ (n : Fin 7) (operand : Operand Value) (v : Int32), v.toInt = n.val - 1 →
    ∀ i ∈ ([⟨.bipush, .immediate v⟩, ⟨.sipush, .immediate v⟩, ⟨.ldc, .constant (.int v)⟩,
      ⟨.ldcWide, .constant (.int v)⟩] : Block),
      step ⟨.constant (.int n), operand⟩ m = step i m
  /-- Signed bytes. -/
  byte : ∀ v : Int32, -128 ≤ v.toInt ∧ v.toInt ≤ 127 →
    step ⟨.bipush, .immediate v⟩ m = step ⟨.sipush, .immediate v⟩ m
  /-- Signed 16-bit numbers. -/
  short : ∀ v : Int32, -32768 ≤ v.toInt ∧ v.toInt ≤ 32767 →
    ∀ i ∈ ([⟨.ldc, .constant (.int v)⟩, ⟨.ldcWide, .constant (.int v)⟩] : Block),
      step ⟨.sipush, .immediate v⟩ m = step i m
  /-- The increment of a slot. -/
  increment : m.frame.stack.length + 2 ≤ m.frame.maxStack → ∀ (index : UInt16) (delta : Int16),
    SameFurtherOn 3 (step ⟨.iinc, .increment index delta⟩ m)
      (runAll [⟨.load .int none, .slot index⟩, ⟨.sipush, .immediate delta.toInt32⟩,
        ⟨.arithmetic .add .int, .none⟩, ⟨.store .int none, .slot index⟩] m)
  /-- The comparisons of an int with zero. -/
  ifZero : m.frame.stack.length + 1 ≤ m.frame.maxStack → ∀ (c : Condition) (offset : Int16),
    SameFurtherOn 1 (step ⟨.ifZero c, .branch offset⟩ m)
      (runAll [⟨.constant (.int 1), .none⟩, ⟨.ifInt c, .branch offset⟩] m)
  /-- The comparisons of a reference with null. -/
  ifNull : m.frame.stack.length + 1 ≤ m.frame.maxStack → ∀ (expected : Bool) (offset : Int16),
    SameFurtherOn 1 (step ⟨.ifNull expected, .branch offset⟩ m)
      (runAll [⟨.constant .null, .none⟩, ⟨.ifSame expected, .branch offset⟩] m)
  /-- The negation of an int. -/
  negate : m.frame.stack.length + 1 ≤ m.frame.maxStack → ∀ operand : Operand Value,
    SameFurtherOn 2 (step ⟨.negate .int, operand⟩ m)
      (runAll [⟨.constant (.int 1), .none⟩, ⟨.swap, .none⟩, ⟨.arithmetic .sub .int, .none⟩] m)

/-- Compact forms do what the general forms do in every machine, as long as the stack has room for
what several instructions put there in the place of one. -/
theorem compactFormsAgree (m : Machine) : CompactFormsAgree m where
  load k n operand := Action.load_implied k n operand m
  store k n operand := Action.store_implied k n operand m
  constant n operand v hv i hi := by
    have hrange : -1 ≤ v.toInt ∧ v.toInt ≤ 5 := by omega
    have hplan : Instruction.plan? ⟨.constant (.int n), operand⟩ = some (.pushing (.int v)) :=
      congrArg (fun v => some (Plan.pushing v)) (Action.value_smallConstant hv)
    refine Action.step_eq_of_pushing hplan ?_
    simp only [List.mem_cons, List.not_mem_nil, or_false] at hi
    rcases hi with rfl | rfl | rfl | rfl
    · exact Action.plan?_bipush ⟨by omega, by omega⟩
    · exact Action.plan?_sipush ⟨by omega, by omega⟩
    · rfl
    · rfl
  byte v hv :=
    Action.step_eq_of_pushing (Action.plan?_bipush hv) (Action.plan?_sipush ⟨by omega, by omega⟩)
  short v hv i hi := by
    refine Action.step_eq_of_pushing (Action.plan?_sipush hv) ?_
    simp only [List.mem_cons, List.not_mem_nil, or_false] at hi
    rcases hi with rfl | rfl <;> rfl
  increment hroom index delta := Action.increment_furtherOn hroom index delta
  ifZero hroom c offset := by
    have hone : Instruction.plan? ⟨.ifZero c, .branch offset⟩ =
        some (.branching [some .int] (fun args => c.tests args.1) offset) := rfl
    have htwo : Instruction.plan? ⟨.ifInt c, .branch offset⟩ =
        some (.branching [some .int, some .int] (fun args => c.compares args.2.1 args.1) offset) :=
      rfl
    have hzero : Instruction.Computes ⟨.constant (.int 1), .none⟩ [] (.of .int 0) :=
      Action.computes_of_pushing rfl
    exact Action.branching_furtherOn hone htwo hzero (fun _ => rfl) hroom
  ifNull hroom expected offset := by
    have hone : Instruction.plan? ⟨.ifNull expected, .branch offset⟩ =
        some (.branching [some .reference] (fun args => decide (args.1 = .null) == expected)
          offset) := rfl
    have htwo : Instruction.plan? ⟨.ifSame expected, .branch offset⟩ =
        some (.branching [some .reference, some .reference]
          (fun args => decide (args.2.1 = args.1) == expected) offset) := rfl
    have hnull : Instruction.Computes ⟨.constant .null, .none⟩ [] (.of .reference .null) :=
      Action.computes_of_pushing rfl
    exact Action.branching_furtherOn hone htwo hnull (fun _ => rfl) hroom
  negate hroom operand := Action.negate_furtherOn hroom operand

/-- With room for two more values a slot is incremented in one instruction or in four, and the int
on top is compared with zero, or negated, in one instruction or in several. -/
theorem compactFormsAgree_int :
    let m : Machine := ⟨⟨[.int 3], .zeroed 1, 0, 3⟩, .empty, .empty⟩
    m.frame.stack.length + 2 ≤ m.frame.maxStack ∧
      (∃ m', Action.step ⟨.iinc, .increment 0 5⟩ m = .ok .next m') ∧
      SameFurtherOn 3 (Action.step ⟨.iinc, .increment 0 5⟩ m)
        (Action.runAll [⟨.load .int none, .slot 0⟩, ⟨.sipush, .immediate (Int16.toInt32 5)⟩,
          ⟨.arithmetic .add .int, .none⟩, ⟨.store .int none, .slot 0⟩] m) ∧
      SameFurtherOn 1 (Action.step ⟨.ifZero .gt, .branch (-1)⟩ m)
        (Action.runAll [⟨.constant (.int 1), .none⟩, ⟨.ifInt .gt, .branch (-1)⟩] m) ∧
      SameFurtherOn 2 (Action.step ⟨.negate .int, .none⟩ m)
        (Action.runAll
          [⟨.constant (.int 1), .none⟩, ⟨.swap, .none⟩, ⟨.arithmetic .sub .int, .none⟩] m) := by
  intro m
  have hagree := compactFormsAgree m
  exact ⟨by decide, ⟨_, rfl⟩, hagree.increment (by decide) 0 5,
    hagree.ifZero (by decide) .gt (-1), hagree.negate (by decide) .none⟩

end StackMachine
