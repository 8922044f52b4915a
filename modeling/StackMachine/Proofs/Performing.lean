import StackMachine.Proofs.Plan

/-!
# Performing an instruction is carrying out its plan

Each family of instructions is brought into the form of its plan by the laws of
monads: what it takes comes first on both sides, and what it computes from there is
an outcome that leaves the machine as it is. The main statement, `perform_eq`, puts
the families together.
-/

namespace StackMachine.Action

/-- An outcome as an action, which leaves the machine as it is. -/
def ofCause {α : Type} : Except Cause α → Action α
  | .ok x => return x
  | .error c => fail c

section

variable {α β : Type}

/-- A sequence of computations on the store is a sequence of actions. -/
theorem ofCause_bind (x : Except Cause α) (f : α → Except Cause β) :
    ofCause (x >>= f) = ofCause x >>= fun a => ofCause (f a) := by
  cases x <;> rfl

/-- A fault is the failure that it is reported as. -/
theorem ofCause_fault (x : Except Fault α) : ofCause (x.mapError .fault) = ofFault x := by
  cases x <;> rfl

theorem ofCause_field (x : Except FieldError α) :
    ofCause (x.mapError FieldError.cause) = ofField x := by
  rcases x with (_ | _) | _ <;> rfl

/-- What is discarded has no influence on what comes next. -/
theorem discard_bind (x : Action α) (f : Unit → Action β) :
    discard x >>= f = x >>= fun _ => f () := by
  funext m
  change EStateM.bind (EStateM.map (fun _ => ()) x) f m = EStateM.bind x _ m
  simp only [EStateM.bind, EStateM.map]
  cases x m <;> rfl

/-- An action that first looks at the machine finds the one it is applied to. -/
theorem get_bind_apply (f : Machine → Action α) (m : Machine) :
    ((get : Action Machine) >>= f) m = f m m := rfl

/-- After an outcome the machine is the same, so what follows is compared there only. -/
theorem ofCause_bind_congr (x : Except Cause α) {f g : α → Action β} {m : Machine}
    (h : ∀ a, f a m = g a m) : (ofCause x >>= f) m = (ofCause x >>= g) m := by
  cases x with
  | ok a => exact h a
  | error c => rfl

/-- What follows in the present store is computed from it. -/
theorem consequence_bind_apply (effect : Store → Except Cause Effect) (f : Effect → Action α)
    (m : Machine) : (consequence effect >>= f) m = (ofCause (effect m.store) >>= f) m := by
  simp only [consequence, bind_assoc, get_bind_apply]
  cases effect m.store <;> rfl

/-- The array at a reference is looked up in the present heap. -/
theorem arrayAt_bind_apply (op : Opcode) (r : Reference) (f : ArrayObject → Action α)
    (m : Machine) : (arrayAt op r >>= f) m = (ofCause (m.heap.arrayAt op r) >>= f) m := by
  simp only [arrayAt, bind_assoc, get_bind_apply, Heap.arrayAt]
  rcases m.heap.object? r with _ | _ | _ | _ <;> rfl

/-- So is an array that has to be of a given kind. -/
theorem arrayOf_bind_apply (op : Opcode) (k : ElementKind) (r : Reference)
    (f : ArrayObject → Action α) (m : Machine) :
    (arrayOf op k r >>= f) m = (ofCause (m.heap.arrayOf op k r) >>= f) m := by
  simp only [arrayOf, bind_assoc, arrayAt_bind_apply, Heap.arrayOf, ofCause_bind]
  refine ofCause_bind_congr _ fun a => ?_
  split <;> rfl

/-- To commit to a push is to write first, then to push and to go on to the next instruction. -/
theorem commit_push (v : Value) (s : Store) (m : Machine) :
    commit (.push v s) m = thenNext (push v) (m.withStore s) := by
  simp only [commit, Effect.push, pushAll, thenNext, bind_assoc, pure_bind, Move.control]
  rfl

end

section

variable (op : Opcode)

/-- A constant is pushed. -/
theorem carryOut_pushing (v : Value) : carryOut op (.pushing v) = thenNext (push v) := by
  funext m
  exact commit_push v m.store m

/-- A slot is loaded, and its value is pushed if it is of the right kind. -/
theorem carryOut_loading (k : Kind) (index : UInt16) :
    carryOut op (.loading op k index) = thenNext (do
      let v ← ofFault ((← get).frame.locals.load index)
      if v.kind = k then push v else fail (.kindMismatch op k v.kind)) := by
  funext m
  simp only [carryOut, Plan.loading, takeAll_nil, pure_bind, consequence_bind_apply, ofCause_bind,
    bind_assoc, thenNext, get_bind_apply, ← ofCause_fault]
  refine ofCause_bind_congr _ fun v => ?_
  split
  · exact commit_push v m.store m
  · rfl

/-- The argument is taken off the stack first and stored then. -/
theorem carryOut_storing (k : Kind) (index : UInt16) :
    carryOut op (.storing k index) = thenNext (do
      let x ← popAs op k
      setSlot index (.of k x)) := by
  simp only [carryOut, Plan.storing, takeAll_nil, takeAll_some, bind_assoc, pure_bind, thenNext]
  refine bind_congr fun x => ?_
  funext m
  simp only [consequence_bind_apply, Plan.setSlot, ofCause_bind, bind_assoc, setSlot,
    get_bind_apply, ← ofCause_fault]
  exact ofCause_bind_congr _ fun locals => rfl

/-- A slot that does not hold an int is refused after it has been read. -/
theorem carryOut_incrementing (index : UInt16) (delta : Int16) :
    carryOut op (.incrementing op index delta) = thenNext (do
      match ← ofFault ((← get).frame.locals.load index) with
      | .int a => setSlot index (.int (increment a delta))
      | v => fail (.kindMismatch op .int v.kind)) := by
  funext m
  simp only [carryOut, Plan.incrementing, takeAll_nil, pure_bind, consequence_bind_apply,
    ofCause_bind, bind_assoc, thenNext, get_bind_apply, ← ofCause_fault]
  refine ofCause_bind_congr _ fun v => ?_
  cases v with
  | int a =>
    simp only [Plan.setSlot, setSlot, ofCause_bind, bind_assoc, get_bind_apply, ← ofCause_fault]
    exact ofCause_bind_congr _ fun locals => rfl
  | long | float | double | reference => rfl

/-- The plan for loading an element does what the instruction does. -/
theorem carryOut_loadingElement (k : ElementKind) :
    carryOut op (.loadingElement op k) = thenNext (loadElement op k) := by
  simp only [carryOut, Plan.loadingElement, takeAll_nil, takeAll_some, bind_assoc, pure_bind,
    thenNext, loadElement]
  refine bind_congr fun index => bind_congr fun r => ?_
  funext m
  simp only [consequence_bind_apply, arrayOf_bind_apply, ofCause_bind, bind_assoc, ← ofCause_fault]
  refine ofCause_bind_congr _ fun a => ofCause_bind_congr _ fun v => ?_
  exact commit_push v m.store m

theorem carryOut_storingElement (k : ElementKind) :
    carryOut op (.storingElement op k) = thenNext (storeElement op k) := by
  simp only [carryOut, Plan.storingElement, takeAll_nil, takeAll_some, bind_assoc, pure_bind,
    thenNext, storeElement]
  refine bind_congr fun x => bind_congr fun index => bind_congr fun r => ?_
  funext m
  simp only [consequence_bind_apply, arrayOf_bind_apply, ofCause_bind, bind_assoc, ← ofCause_fault]
  exact ofCause_bind_congr _ fun a => ofCause_bind_congr _ fun a' => rfl

/-- The plan for a new array does what the instruction does. -/
theorem carryOut_allocating (k : ElementKind) :
    carryOut op (.allocating k) = thenNext (pushNewArray op k) := by
  simp only [carryOut, Plan.allocating, takeAll_nil, takeAll_some, bind_assoc, pure_bind, thenNext,
    pushNewArray]
  refine bind_congr fun size => ?_
  funext m
  simp only [consequence_bind_apply]
  split
  · rfl
  · exact commit_push _ _ m

theorem carryOut_measuring : carryOut op (.measuring op) = thenNext (pushLength op) := by
  simp only [carryOut, Plan.measuring, takeAll_nil, takeAll_some, bind_assoc, pure_bind, thenNext,
    pushLength]
  refine bind_congr fun r => ?_
  funext m
  simp only [consequence_bind_apply, arrayAt_bind_apply, ofCause_bind, bind_assoc]
  exact ofCause_bind_congr _ fun a => commit_push _ m.store m

/-- Two arguments are taken off the stack, the second one first. -/
theorem carryOut_binary (k target : Kind)
    (f : k.Carrier → k.Carrier → Except Fault target.Carrier) :
    carryOut op (.binary k target f) = thenNext (binary op k target f) := by
  simp only [carryOut, Plan.binary, takeAll_nil, takeAll_some, bind_assoc, pure_bind, thenNext,
    binary]
  refine bind_congr fun b => bind_congr fun a => ?_
  funext m
  simp only [consequence_bind_apply, ofCause_bind, bind_assoc, ← ofCause_fault]
  exact ofCause_bind_congr _ fun x => commit_push _ m.store m

/-- One argument is taken off the stack, and one result is pushed. -/
theorem carryOut_unary (k target : Kind) (f : k.Carrier → target.Carrier) :
    carryOut op (.unary k target f) = thenNext (unary op k target f) := by
  simp only [carryOut, Plan.unary, takeAll_nil, takeAll_some, bind_assoc, pure_bind, thenNext,
    unary]
  refine bind_congr fun a => ?_
  funext m
  exact commit_push _ m.store m

/-- The amount of a shift is on top of the number. -/
theorem carryOut_shifting (d : Shift) (n : Integral) :
    carryOut op (.shifting d n) = thenNext (shifted op d n) := by
  simp only [carryOut, Plan.shifting, takeAll_nil, takeAll_some, bind_assoc, pure_bind, thenNext,
    shifted]
  refine bind_congr fun amount => bind_congr fun a => ?_
  funext m
  exact commit_push _ m.store m

/-- A condition is tested when all arguments have been taken. -/
theorem carryOut_branching (d : Demand) (test : Arguments d → Bool) (offset : Int16) :
    carryOut op (.branching d test offset) =
      takeAll op d >>= fun args => branchIf (test args) offset := by
  refine bind_congr fun args => ?_
  funext m
  by_cases h : test args <;> simp only [Plan.branching, branchIf, h] <;> rfl

/-- A field is looked up, and its value is pushed if it is of the kind that was asked for. -/
theorem carryOut_getting (f : FieldRef) :
    carryOut op (.getting f) = thenNext (do
      let v ← ofField ((← get).statics.get f.name)
      if v.kind = f.kind then push v else fail (.fieldKindMismatch f.name v.kind f.kind)) := by
  funext m
  simp only [carryOut, Plan.getting, takeAll_nil, pure_bind, consequence_bind_apply, ofCause_bind,
    bind_assoc, thenNext, get_bind_apply, ← ofCause_field]
  refine ofCause_bind_congr _ fun v => ?_
  split
  · exact commit_push v m.store m
  · rfl

/-- The argument is taken off the stack first and put into the field then. -/
theorem carryOut_putting (f : FieldRef) :
    carryOut op (.putting f) = thenNext (do
      let x ← popAs op f.kind
      let statics ← ofField ((← get).statics.put f.name (.of f.kind x))
      modify fun m => { m with statics := statics }) := by
  simp only [carryOut, Plan.putting, takeAll_nil, takeAll_some, bind_assoc, pure_bind, thenNext]
  refine bind_congr fun x => ?_
  funext m
  simp only [consequence_bind_apply, ofCause_bind, bind_assoc, get_bind_apply, ← ofCause_field]
  exact ofCause_bind_congr _ fun statics => rfl

/-- Taking arguments of given kinds is popping them onto a list. -/
theorem popArguments_eq (kinds : List Kind) (popped : List Value) :
    popArguments op kinds popped =
      takeAll op (kinds.map some) >>= fun args => pure (args.values.reverse ++ popped) := by
  induction kinds generalizing popped with
  | nil => rfl
  | cons k kinds ih =>
    change _ = takeAll op (some k :: kinds.map some) >>= fun args =>
      pure (args.values.reverse ++ popped)
    simp only [popArguments, ih, takeAll_some, bind_assoc, pure_bind, Arguments.values,
      List.reverse_cons, List.append_assoc, List.singleton_append]

/-- The arguments of a call are taken off the stack from the last to the first. -/
theorem carryOut_calling (m : MethodRef) :
    carryOut op (.calling m) =
      popArguments op m.params.reverse [] >>= fun args => pure (.invoke m args) := by
  rw [popArguments_eq]
  simp only [carryOut, Plan.calling, bind_assoc, pure_bind, List.append_nil]
  exact bind_congr fun args => rfl

/-- A result is taken off the stack and carried away. -/
theorem carryOut_returning (k : Kind) : carryOut op (.returning k) = returnWith op k := by
  simp only [carryOut, Plan.returning, takeAll_nil, takeAll_some, bind_assoc, pure_bind, returnWith]
  exact bind_congr fun x => rfl

/-- Dropping a value is popping it and forgetting it. -/
theorem carryOut_pop :
    carryOut op .dropping = thenNext (discard pop) := by
  simp only [carryOut, Plan.dropping, takeAll_nil, takeAll_none, bind_assoc, pure_bind, thenNext,
    discard_bind]
  exact bind_congr fun v => rfl

/-- Duplicating a value is popping it and pushing it twice. -/
theorem carryOut_dup :
    carryOut op .duplicating = thenNext duplicate := by
  simp only [carryOut, Plan.duplicating, takeAll_nil, takeAll_none, bind_assoc, pure_bind, thenNext,
    duplicate]
  refine bind_congr fun v => ?_
  funext m
  change (pushAll [v, v] >>= fun _ => _) m = _
  simp only [pushAll, bind_assoc, pure_bind]
  rfl

/-- Exchanging two values is popping both and pushing them in the order in which they came. -/
theorem carryOut_swap :
    carryOut op .exchanging = thenNext exchange := by
  simp only [carryOut, Plan.exchanging, takeAll_nil, takeAll_none, bind_assoc, pure_bind, thenNext,
    exchange]
  refine bind_congr fun b => bind_congr fun a => ?_
  funext m
  change (pushAll [b, a] >>= fun _ => _) m = _
  simp only [pushAll, bind_assoc, pure_bind]
  rfl

end

/-- A slot is found exactly if the opcode or the operand names one. -/
theorem slotOf_eq (i : Instruction Value) (slot : Option (Fin 4)) :
    slotOf i slot = (i.slot? slot).elim (fail (.badOperand i.opcode)) pure := by
  unfold slotOf Instruction.slot?
  cases slot with
  | some n => rfl
  | none => cases i.operand <;> rfl

/-- The distance of a branch is found exactly if it is the operand. -/
theorem offsetOf_eq (i : Instruction Value) :
    offsetOf i = i.offset?.elim (fail (.badOperand i.opcode)) pure := by
  unfold offsetOf Instruction.offset?
  cases i.operand <;> rfl

/-- An immediate operand is pushed exactly if it lies between the bounds. -/
theorem pushImmediate_eq (i : Instruction Value) (lo hi : Int) :
    pushImmediate i lo hi =
      (i.immediate? lo hi).elim (fail (.badOperand i.opcode)) fun n => push (.int n) := by
  unfold pushImmediate Instruction.immediate?
  cases i.operand with
  | immediate n => by_cases h : lo ≤ n.toInt ∧ n.toInt ≤ hi <;> simp [h]
  | _ => rfl

/-- A constant operand is pushed exactly if it is as wide as the opcode wants. -/
theorem pushConstant_eq (i : Instruction Value) (wide : Bool) :
    pushConstant i wide = (i.constant? wide).elim (fail (.badOperand i.opcode)) push := by
  unfold pushConstant Instruction.constant? Kind.isLoadable
  cases i.operand with
  | constant v => by_cases h : v.kind.isWide = wide <;> simp [h]
  | _ => rfl

/-- An array is created exactly if the operand is a primitive element kind. -/
theorem newArray_eq (i : Instruction Value) :
    newArray i =
      i.primitive?.elim (fail (.badOperand i.opcode)) (pushNewArray i.opcode) := by
  unfold newArray Instruction.primitive?
  cases i.operand with
  | elementKind k => by_cases h : k = .reference <;> simp [h]
  | _ => rfl

/-- Where an operand may not fit, the plan is carried out exactly if it does. -/
theorem thenNext_elim {α : Type} (op : Opcode) (x : Option α) (f : α → Action Unit)
    (p : α → Plan) (h : ∀ a, carryOut op (p a) = thenNext (f a)) :
    thenNext (x.elim (fail (.badOperand op)) f) =
      (x.map p).elim (fail (.badOperand op)) (carryOut op) := by
  cases x with
  | none => rfl
  | some a => exact (h a).symm

/-- Loading a slot is carrying out the plan for it, if a slot is named. -/
theorem loadSlot_eq (i : Instruction Value) (k : Kind) (slot : Option (Fin 4)) :
    thenNext (loadSlot i k slot) =
      ((i.slot? slot).map (.loading i.opcode k)).elim (fail (.badOperand i.opcode))
        (carryOut i.opcode) := by
  rw [loadSlot, slotOf_eq]
  cases i.slot? slot with
  | none => rfl
  | some index => exact (carryOut_loading i.opcode k index).symm

theorem storeSlot_eq (i : Instruction Value) (k : Kind) (slot : Option (Fin 4)) :
    thenNext (storeSlot i k slot) =
      ((i.slot? slot).map (.storing k)).elim (fail (.badOperand i.opcode))
        (carryOut i.opcode) := by
  rw [storeSlot, slotOf_eq]
  cases i.slot? slot with
  | none => rfl
  | some index => exact (carryOut_storing i.opcode k index).symm

/-- A branch is the plan for it, if there is a distance, whatever condition it tests. -/
theorem branch_eq (i : Instruction Value) (d : Demand) (test : Arguments d → Bool)
    (a : Int16 → Action Control)
    (h : ∀ offset, a offset = takeAll i.opcode d >>= fun args => branchIf (test args) offset) :
    offsetOf i >>= a =
      (i.offset?.map (.branching d test)).elim (fail (.badOperand i.opcode))
        (carryOut i.opcode) := by
  rw [offsetOf_eq]
  cases i.offset? with
  | none => rfl
  | some offset => exact (h offset).trans (carryOut_branching i.opcode d test offset).symm

/-- Performing an instruction is carrying out its plan, and one whose operand does not
fit is refused before anything else. -/
theorem perform_eq (i : Instruction Value) :
    perform i = i.plan?.elim (fail (.badOperand i.opcode)) (carryOut i.opcode) := by
  obtain ⟨op, operand⟩ := i
  cases op with
  | constant c => exact (carryOut_pushing _ _).symm
  | bipush =>
    exact (congrArg thenNext (pushImmediate_eq _ _ _)).trans
      (thenNext_elim _ _ _ _ fun n => carryOut_pushing _ _)
  | sipush =>
    exact (congrArg thenNext (pushImmediate_eq _ _ _)).trans
      (thenNext_elim _ _ _ _ fun n => carryOut_pushing _ _)
  | ldc | ldcWide | ldc2 =>
    exact (congrArg thenNext (pushConstant_eq _ _)).trans
      (thenNext_elim _ _ _ _ fun v => carryOut_pushing _ _)
  | load k slot => exact loadSlot_eq _ k slot
  | store k slot => exact storeSlot_eq _ k slot
  | arrayLoad k => exact (carryOut_loadingElement _ k).symm
  | arrayStore k => exact (carryOut_storingElement _ k).symm
  | pop => exact (carryOut_pop _).symm
  | dup => exact (carryOut_dup _).symm
  | swap => exact (carryOut_swap _).symm
  | arithmetic o n => exact (carryOut_binary ..).symm
  | negate n => exact (carryOut_unary ..).symm
  | shift d n => exact (carryOut_shifting ..).symm
  | bitwise o n => exact (carryOut_binary ..).symm
  | iinc =>
    cases operand with
    | increment index delta => exact (carryOut_incrementing _ index delta).symm
    | _ => rfl
  | convert c => exact (carryOut_unary ..).symm
  | compare c => exact (carryOut_binary ..).symm
  | ifZero _ | ifInt _ | ifSame _ | ifNull _ =>
    refine branch_eq _ _ _ _ fun offset => ?_
    simp only [takeAll_nil, takeAll_some, bind_assoc, pure_bind]
  | returnValue k => exact (carryOut_returning _ k).symm
  | returnVoid => rfl
  | getstatic =>
    cases operand with
    | field f => exact (carryOut_getting _ f).symm
    | _ => rfl
  | putstatic =>
    cases operand with
    | field f => exact (carryOut_putting _ f).symm
    | _ => rfl
  | invokestatic =>
    cases operand with
    | method m => exact (carryOut_calling _ m).symm
    | _ => rfl
  | newarray =>
    exact (congrArg thenNext (newArray_eq _)).trans
      (thenNext_elim _ _ _ _ fun k => carryOut_allocating _ k)
  | anewarray => exact (carryOut_allocating ..).symm
  | arraylength => exact (carryOut_measuring _).symm

end StackMachine.Action
