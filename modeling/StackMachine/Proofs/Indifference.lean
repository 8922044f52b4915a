import StackMachine.Proofs.Alike
import StackMachine.Proofs.Course

/-!
# What no instruction can tell

No instruction can tell one NaN from another, or what a string or a class literal holds.
Executed on machines that are alike, it does the same on both: it fails for the same reason,
or both sides go on to the same place with machines that are alike again. A plan is
indifferent if what follows from arguments that are alike is alike; every instruction has
such a plan, and what is done with plans does not look at values at all.

So runs of a block on machines that are alike take the same instructions and come to the
same end.
-/

namespace StackMachine

/-- Two lists of arguments are alike. -/
def Arguments.Alike : {d : Demand} → Arguments d → Arguments d → Prop
  | [], _, _ => True
  | none :: _, (v, args), (v', args') => v.Alike v' ∧ Alike args args'
  | some k :: _, (x, args), (x', args') => k.Alike x x' ∧ Alike args args'

/-- Two instructions lead to the same place, with values that are alike. -/
inductive Move.Alike : Move → Move → Prop where
  | next : Alike .next .next
  | branch (offset : Int16) : Alike (.branch offset) (.branch offset)
  | invoke (method : MethodRef) {args args' : List Value}
      (h : List.Forall₂ Value.Alike args args') : Alike (.invoke method args) (.invoke method args')
  | return {v v' : Option Value} (h : Option.Rel Value.Alike v v') : Alike (.return v) (.return v')

/-- Two control events are the same, up to values that are alike. -/
inductive Control.Alike : Control → Control → Prop where
  | next : Alike .next .next
  | branch (pc : Nat) (offset : Int16) : Alike (.branch pc offset) (.branch pc offset)
  | invoke (method : MethodRef) {args args' : List Value}
      (h : List.Forall₂ Value.Alike args args') : Alike (.invoke method args) (.invoke method args')
  | return {v v' : Option Value} (h : Option.Rel Value.Alike v v') : Alike (.return v) (.return v')

/-- Two effects push, write and lead to the same, up to values that are alike. -/
structure Effect.Alike (e e' : Effect) : Prop where
  pushes : List.Forall₂ Value.Alike e.pushes e'.pushes
  store : e.store.Alike e'.store
  move : e.move.Alike e'.move

/-- Two plans take the same off the stack, and what follows from arguments that are alike is
alike. -/
inductive Plan.Alike : Plan → Plan → Prop where
  | intro {d : Demand} {gives gives' : List Kind → List Kind}
      {effect effect' : Arguments d → Store → Except Cause Effect}
      (h : ∀ args args' s s', args.Alike args' → s.Alike s' →
        Agree Effect.Alike (effect args s) (effect' args' s')) :
      Alike ⟨d, gives, effect⟩ ⟨d, gives', effect'⟩

/-- Two operands are the same, or constants that are alike. -/
inductive Operand.Alike : Operand Value → Operand Value → Prop where
  | same (operand : Operand Value) : Alike operand operand
  | constant {v v' : Value} (h : v.Alike v') : Alike (.constant v) (.constant v')

/-- Two instructions are the same, up to constants that are alike. -/
structure Instruction.Alike (i i' : Instruction Value) : Prop where
  opcode : i'.opcode = i.opcode
  operand : i.operand.Alike i'.operand

/-- Two executions end alike: with the same failure or with results that are in a relation,
and with machines that are alike. -/
inductive EndAlike {ε α β : Type} (R : α → β → Prop) :
    EStateM.Result ε Machine α → EStateM.Result ε Machine β → Prop where
  | ok {x : α} {y : β} {m m' : Machine} (h : R x y) (machine : m.Alike m') :
      EndAlike R (.ok x m) (.ok y m')
  | error (e : ε) {m m' : Machine} (machine : m.Alike m') : EndAlike R (.error e m) (.error e m')

/-- Two actions end alike on machines that are alike. -/
def Action.Alike {α β : Type} (R : α → β → Prop) (a : Action α) (b : Action β) : Prop :=
  ∀ m m', m.Alike m' → EndAlike R (a m) (b m')

/-! ### Actions -/

section

variable {m m' : Machine}

/-- Machines that are alike have stores that are. -/
theorem Machine.Alike.store (hm : m.Alike m') : m.store.Alike m'.store :=
  ⟨hm.frame.locals, hm.statics, hm.heap⟩

theorem Machine.Alike.withStack (hm : m.Alike m') {stack stack' : List Value}
    (h : List.Forall₂ Value.Alike stack stack') : (m.withStack stack).Alike (m'.withStack stack') :=
  ⟨⟨h, hm.frame.locals, hm.frame.pc, hm.frame.maxStack⟩, hm.statics, hm.heap⟩

theorem Machine.Alike.withStore (hm : m.Alike m') {s s' : Store} (h : s.Alike s') :
    (m.withStore s).Alike (m'.withStore s') :=
  ⟨⟨hm.frame.stack, h.locals, hm.frame.pc, hm.frame.maxStack⟩, h.statics, h.heap⟩

end

namespace Action.Alike

variable {α β γ κ : Type} {R : α → β → Prop} {S : γ → κ → Prop} {a : Action α} {b : Action β}

theorem pure {x : α} {y : β} (h : R x y) : Action.Alike R (pure x) (pure y) :=
  fun _ _ hm => .ok h hm

/-- Actions that end alike go on with results that are in the relation. -/
theorem bind {f : α → Action γ} {g : β → Action κ} (h : Action.Alike R a b)
    (hfg : ∀ x y, R x y → Action.Alike S (f x) (g y)) : Action.Alike S (a >>= f) (b >>= g) := by
  intro m m' hm
  have hab := h m m' hm
  rw [bind_apply, bind_apply]
  generalize a m = r at hab ⊢
  generalize b m' = r' at hab ⊢
  cases hab with
  | ok h machine => exact hfg _ _ h _ _ machine
  | error e machine => exact .error e machine

/-- A failure is the same on both sides, and so is the index that it reports. -/
theorem fail (c : Cause) : Action.Alike R (fail c : Action α) (fail c : Action β) := by
  intro m m' hm
  change EndAlike R (.error (Failure.mk m.frame.pc c) m) (.error (Failure.mk m'.frame.pc c) m')
  rw [hm.frame.pc]
  exact .error _ hm

/-- Values that are popped are alike. -/
theorem pop : Action.Alike Value.Alike pop pop := by
  intro m m' hm
  have hstack := hm.frame.stack
  rw [pop_apply, pop_apply, hm.frame.pc]
  generalize m.frame.stack = stack at hstack ⊢
  generalize m'.frame.stack = stack' at hstack ⊢
  cases hstack with
  | nil => exact .error _ hm
  | cons hv hrest => exact .ok hv (hm.withStack hrest)

/-- Whether a value is of the right kind is the same for values that are alike. -/
theorem popAs (op : Opcode) (k : Kind) :
    Action.Alike k.Alike (popAs op k) (popAs op k) := by
  refine pop.bind fun v v' hv => ?_
  have hx := hv.as? k
  rw [hv.kind]
  generalize v.as? k = x at hx ⊢
  generalize v'.as? k = x' at hx ⊢
  cases hx with
  | some h => exact .pure h
  | none => exact .fail _

/-- Whether there is room for a value does not depend on the value. -/
theorem push {v v' : Value} (hv : v.Alike v') :
    Action.Alike (fun _ _ => True) (push v) (push v') := by
  intro m m' hm
  rw [push_apply, push_apply, hm.frame.maxStack, ← hm.frame.stack.length_eq, hm.frame.pc]
  split
  · exact .error _ hm
  · exact .ok trivial (hm.withStack (.cons hv hm.frame.stack))

/-- Arguments that are taken are alike. -/
theorem takeAll (op : Opcode) (d : Demand) :
    Action.Alike Arguments.Alike (takeAll op d) (takeAll op d) := by
  induction d with
  | nil => exact .pure trivial
  | cons o d ih =>
    cases o with
    | none =>
      refine pop.bind fun v v' hv => ih.bind fun args args' hargs => ?_
      exact .pure (show Arguments.Alike (d := none :: d) _ _ from ⟨hv, hargs⟩)
    | some k =>
      refine (popAs op k).bind fun x x' hx => ih.bind fun args args' hargs => ?_
      exact .pure (show Arguments.Alike (d := some k :: d) _ _ from ⟨hx, hargs⟩)

theorem pushAll {vs vs' : List Value} (h : List.Forall₂ Value.Alike vs vs') :
    Action.Alike (fun _ _ => True) (pushAll vs) (pushAll vs') := by
  induction h with
  | nil => exact .pure trivial
  | cons hv _ ih => exact (push hv).bind fun _ _ _ => ih

/-- What follows from arguments is alike if it is so in stores that are alike. -/
theorem consequence {effect effect' : Store → Except Cause Effect}
    (h : ∀ s s', s.Alike s' → Agree Effect.Alike (effect s) (effect' s')) :
    Action.Alike Effect.Alike (consequence effect) (consequence effect') := by
  intro m m' hm
  have he := h _ _ hm.store
  rw [Action.consequence, Action.consequence, get_bind_apply, get_bind_apply]
  generalize effect m.store = e at he ⊢
  generalize effect' m'.store = e' at he ⊢
  cases he with
  | ok h => exact .ok h hm
  | error c => exact fail c m m' hm

end Action.Alike

/-- Moves that are alike are control events that are alike. -/
theorem Move.Alike.control {move move' : Move} (h : move.Alike move') (pc : Nat) :
    (move.control pc).Alike (move'.control pc) := by
  cases h with
  | next => exact .next
  | branch offset => exact .branch pc offset
  | invoke method h => exact .invoke method h
  | «return» h => exact .return h

namespace Action.Alike

/-- Effects that are alike are committed alike. -/
theorem commit {e e' : Effect} (he : e.Alike e') :
    Action.Alike Control.Alike (commit e) (commit e') := by
  have hwrite : Action.Alike (fun _ _ => True) (modify fun m : Machine => m.withStore e.store)
      (modify fun m : Machine => m.withStore e'.store) :=
    fun m m' hm => .ok trivial (hm.withStore he.store)
  refine hwrite.bind fun _ _ _ => (pushAll he.pushes).bind fun _ _ _ m m' hm => ?_
  rw [get_bind_apply, get_bind_apply, hm.frame.pc]
  exact .ok (he.move.control _) hm

/-- Plans that are alike are carried out alike. -/
theorem carryOut (op : Opcode) {p p' : Plan} (h : p.Alike p') :
    Action.Alike Control.Alike (carryOut op p) (carryOut op p') := by
  cases h with
  | intro h =>
    exact (takeAll op _).bind fun args args' hargs =>
      (consequence fun s s' hs => h args args' s s' hargs hs).bind fun e e' he => commit he

end Action.Alike

/-! ### Plans -/

theorem Effect.Alike.push {v v' : Value} {s s' : Store} (hv : v.Alike v') (hs : s.Alike s') :
    (Effect.push v s).Alike (.push v' s') :=
  ⟨.cons hv .nil, hs, .next⟩

theorem Effect.Alike.write {s s' : Store} (hs : s.Alike s') :
    (Effect.write s).Alike (.write s') :=
  ⟨.nil, hs, .next⟩

/-- Arguments that are alike are lists of values that are alike. -/
theorem Arguments.Alike.values {d : Demand} {args args' : Arguments d} (h : args.Alike args') :
    List.Forall₂ Value.Alike args.values args'.values := by
  induction d with
  | nil => exact .nil
  | cons o d ih => cases o <;> exact .cons h.1 (ih h.2)

namespace Plan.Alike

/-- Constants that are alike have plans that are alike. -/
theorem pushing {v v' : Value} (hv : v.Alike v') : (Plan.pushing v).Alike (.pushing v') :=
  .intro fun _ _ _ _ _ hs => .ok (.push hv hs)

/-- A slot is written on both sides, or there is none on either. -/
theorem setSlot (index : UInt16) {v v' : Value} {s s' : Store} (hv : v.Alike v')
    (hs : s.Alike s') : Agree Effect.Alike (Plan.setSlot index v s) (Plan.setSlot index v' s') :=
  ((hs.locals.store index hv).mapError _).bind fun _ _ hl =>
    .ok (.write ⟨hl, hs.statics, hs.heap⟩)

/-- The value of a slot is of the right kind on both sides or on neither. -/
theorem loading (op : Opcode) (k : Kind) (index : UInt16) :
    (Plan.loading op k index).Alike (.loading op k index) := by
  refine .intro fun _ _ s s' _ hs => ((hs.locals.load index).mapError _).bind fun v v' hv => ?_
  rw [hv.kind]
  split
  · exact .ok (.push hv hs)
  · exact .error _

/-- A slot takes arguments that are alike. -/
theorem storing (k : Kind) (index : UInt16) : (Plan.storing k index).Alike (.storing k index) :=
  .intro fun _ _ _ _ hargs hs => setSlot index hargs.1 hs

/-- Only an int is increased, and ints that are alike are the same. -/
theorem incrementing (op : Opcode) (index : UInt16) (delta : Int16) :
    (Plan.incrementing op index delta).Alike (.incrementing op index delta) := by
  refine .intro fun _ _ s s' _ hs => ((hs.locals.load index).mapError _).bind fun v v' hv => ?_
  cases hv with
  | int n => exact setSlot index (.int _) hs
  | long | float | double | reference => exact .error _

/-- Indices and references that are alike are the same, so they lead to elements that are alike. -/
theorem loadingElement (op : Opcode) (k : ElementKind) :
    (Plan.loadingElement op k).Alike (.loadingElement op k) := by
  refine .intro fun args args' s s' hargs hs => ?_
  obtain ⟨index, r, _⟩ := args
  obtain ⟨index', r', _⟩ := args'
  obtain rfl : index = index' := hargs.1.int
  obtain rfl : r = r' := hargs.2.1.reference
  exact (hs.heap.arrayOf op k r).bind fun a a' ha =>
    ((ha.load index).mapError _).bind fun v v' hv => .ok (.push hv hs)

/-- They lead to arrays that are alike, which take or refuse values that are alike. -/
theorem storingElement (op : Opcode) (k : ElementKind) :
    (Plan.storingElement op k).Alike (.storingElement op k) := by
  refine .intro fun args args' s s' hargs hs => ?_
  obtain ⟨x, index, r, _⟩ := args
  obtain ⟨x', index', r', _⟩ := args'
  obtain ⟨hx, hindex, hr, -⟩ := hargs
  obtain rfl : index = index' := hindex.int
  obtain rfl : r = r' := hr.reference
  exact (hs.heap.arrayOf op k r).bind fun a a' ha =>
    ((ha.store index hx).mapError _).bind fun a a' ha =>
      .ok (.write ⟨hs.locals, hs.statics, hs.heap.setArray ha r⟩)

/-- The length of a new array and the reference to it are the same on both sides. -/
theorem allocating (k : ElementKind) : (Plan.allocating k).Alike (.allocating k) := by
  refine .intro fun args args' s s' hargs hs => ?_
  obtain ⟨size, _⟩ := args
  obtain ⟨size', _⟩ := args'
  obtain rfl : size = size' := hargs.1.int
  dsimp only
  split
  · exact .error _
  · refine .ok (.push ?_ ⟨hs.locals, hs.statics, hs.heap.alloc (.refl _)⟩)
    rw [hs.heap.alloc_fst]
    exact .refl _

/-- Arrays that are alike have the same length. -/
theorem measuring (op : Opcode) : (Plan.measuring op).Alike (.measuring op) := by
  refine .intro fun args args' s s' hargs hs => ?_
  obtain ⟨r, _⟩ := args
  obtain ⟨r', _⟩ := args'
  obtain rfl : r = r' := hargs.1.reference
  refine (hs.heap.arrayAt op r).bind fun a a' ha => ?_
  rw [ha.length]
  exact .ok (.push (.int _) hs)

theorem dropping : Plan.dropping.Alike .dropping :=
  .intro fun _ _ _ _ _ hs => .ok (.write hs)

/-- A value that is pushed twice is alike both times. -/
theorem duplicating : Plan.duplicating.Alike .duplicating :=
  .intro fun _ _ _ _ hargs hs => .ok ⟨.cons hargs.1 (.cons hargs.1 .nil), hs, .next⟩

/-- Two values that are exchanged are alike to those on the other side. -/
theorem exchanging : Plan.exchanging.Alike .exchanging :=
  .intro fun _ _ _ _ hargs hs => .ok ⟨.cons hargs.1 (.cons hargs.2.1 .nil), hs, .next⟩

/-- An operation that gives numbers that are alike the same result. -/
theorem binary {k target : Kind} {f : k.Carrier → k.Carrier → Except Fault target.Carrier}
    (hf : ∀ a a' b b', k.Alike a a' → k.Alike b b' → f a b = f a' b') :
    (Plan.binary k target f).Alike (.binary k target f) := by
  refine .intro fun args args' s s' hargs hs => ?_
  obtain ⟨b, a, _⟩ := args
  obtain ⟨b', a', _⟩ := args'
  change Agree Effect.Alike ((f a b).mapError _ >>= _) ((f a' b').mapError _ >>= _)
  rw [hf a a' b b' hargs.2.1 hargs.1]
  cases f a' b' with
  | ok x => exact .ok (.push (.refl _) hs)
  | error e => exact .error _

/-- An operation that gives numbers that are alike results that are alike. -/
theorem unary {k target : Kind} {f : k.Carrier → target.Carrier}
    (hf : ∀ a a', k.Alike a a' → target.Alike (f a) (f a')) :
    (Plan.unary k target f).Alike (.unary k target f) :=
  .intro fun _ _ _ _ hargs hs => .ok (.push (hf _ _ hargs.1) hs)

/-- The amount and the number are integers, so the result is the same. -/
theorem shifting (d : Shift) (n : Integral) : (Plan.shifting d n).Alike (.shifting d n) := by
  refine .intro fun args args' s s' hargs hs => ?_
  obtain ⟨amount, a, _⟩ := args
  obtain ⟨amount', a', _⟩ := args'
  obtain rfl : amount = amount' := hargs.1.int
  obtain rfl : a = a' := Integral.eq_of_alike hargs.2.1
  exact .ok (.push (.refl _) hs)

/-- A test that does not tell arguments that are alike. -/
theorem branching {d : Demand} {test : Arguments d → Bool} (offset : Int16)
    (htest : ∀ args args', args.Alike args' → test args = test args') :
    (Plan.branching d test offset).Alike (.branching d test offset) := by
  refine .intro fun args args' s s' hargs hs => ?_
  rw [htest args args' hargs]
  cases test args' with
  | false => exact .ok ⟨.nil, hs, .next⟩
  | true => exact .ok ⟨.nil, hs, .branch offset⟩

/-- A field has values that are alike, and of the right kind on both sides or on neither. -/
theorem getting (f : FieldRef) : (Plan.getting f).Alike (.getting f) := by
  refine .intro fun _ _ s s' _ hs => ((hs.statics.get f.name).mapError _).bind fun v v' hv => ?_
  rw [hv.kind]
  split
  · exact .ok (.push hv hs)
  · exact .error _

/-- A field takes values that are alike or refuses both. -/
theorem putting (f : FieldRef) : (Plan.putting f).Alike (.putting f) :=
  .intro fun _ _ _ _ hargs hs => ((hs.statics.put f.name hargs.1).mapError _).bind fun _ _ ht =>
    .ok (.write ⟨hs.locals, ht, hs.heap⟩)

/-- A call carries away arguments that are alike. -/
theorem calling (m : MethodRef) : (Plan.calling m).Alike (.calling m) :=
  .intro fun _ _ _ _ hargs hs => .ok ⟨.nil, hs, .invoke m (List.rel_reverse hargs.values)⟩

/-- A return carries away values that are alike. -/
theorem returning (k : Kind) : (Plan.returning k).Alike (.returning k) :=
  .intro fun _ _ _ _ hargs hs => .ok ⟨.nil, hs, .return (.some hargs.1)⟩

theorem leaving : Plan.leaving.Alike .leaving :=
  .intro fun _ _ _ _ _ hs => .ok ⟨.nil, hs, .return .none⟩

end Plan.Alike

/-! ### Instructions -/

namespace Instruction

/-- Every plan of an instruction is alike to itself. -/
theorem Plans.alike {i : Instruction Value} {p : Plan} (h : i.Plans p) : p.Alike p := by
  cases h with
  | constant | bipush | sipush | ldc | ldcWide | ldc2 => exact .pushing (.refl _)
  | load => exact .loading ..
  | store => exact .storing ..
  | iinc => exact .incrementing ..
  | arrayLoad => exact .loadingElement ..
  | arrayStore => exact .storingElement ..
  | newarray | anewarray => exact .allocating _
  | arraylength => exact .measuring _
  | pop => exact .dropping
  | dup => exact .duplicating
  | swap => exact .exchanging
  | arithmetic a n => exact .binary fun _ _ _ _ hx hy => a.apply_alike hx hy
  | bitwise b n =>
    refine .binary fun x x' y y' hx hy => ?_
    rw [Integral.eq_of_alike hx, Integral.eq_of_alike hy]
  | compare c => exact .binary fun _ _ _ _ hx hy => by rw [c.apply_alike hx hy]
  | negate n => exact .unary fun _ _ hx => Numeric.negate_alike hx
  | convert c => exact .unary fun _ _ hx => c.apply_alike hx ▸ .refl ..
  | shift d n => exact .shifting d n
  | ifZero c offset => exact .branching offset fun _ _ hargs => congrArg c.tests hargs.1.int
  | ifInt c offset =>
    exact .branching offset fun _ _ hargs => congrArg₂ c.compares hargs.2.1.int hargs.1.int
  | ifSame expected offset =>
    exact .branching offset fun _ _ hargs => by rw [hargs.1.reference, hargs.2.1.reference]
  | ifNull expected offset =>
    exact .branching offset fun _ _ hargs => by rw [hargs.1.reference]
  | getstatic f => exact .getting f
  | putstatic f => exact .putting f
  | invokestatic m => exact .calling m
  | returnValue k => exact .returning k
  | returnVoid => exact .leaving

/-- Constants that are alike are as wide as the opcode wants, or both are not. -/
theorem alike_pushing_constant? {op : Opcode} (wide : Bool) {v v' : Value} (hv : v.Alike v') :
    Option.Rel Plan.Alike
      ((Instruction.constant? ⟨op, .constant v⟩ wide).map .pushing)
      ((Instruction.constant? ⟨op, .constant v'⟩ wide).map .pushing) := by
  simp only [constant?, hv.kind]
  split
  · exact .some (.pushing hv)
  · exact .none

/-- The plans of instructions that are alike are alike. -/
theorem Alike.plan? {i i' : Instruction Value} (h : i.Alike i') :
    Option.Rel Plan.Alike i.plan? i'.plan? := by
  suffices hdiffer : i'.plan? = i.plan? ∨ Option.Rel Plan.Alike i.plan? i'.plan? by
    rcases hdiffer with heq | hrel
    · rw [heq]
      cases hp : i.plan? with
      | none => exact .none
      | some p => exact .some (plans_of_plan? hp).alike
    · exact hrel
  obtain ⟨op, operand⟩ := i
  obtain ⟨op', operand'⟩ := i'
  obtain ⟨hopcode, hoperand⟩ := h
  obtain rfl : op' = op := hopcode
  cases hoperand with
  | same => exact .inl rfl
  | constant hv =>
    cases op' with
    | ldc | ldcWide | ldc2 => exact .inr (alike_pushing_constant? _ hv)
    | _ => exact .inl rfl

end Instruction

/-! ### Executions -/

/-- Instructions that are alike are performed alike. -/
theorem Action.perform_alike {i i' : Instruction Value} (h : i.Alike i') :
    Action.Alike Control.Alike (perform i) (perform i') := by
  have hplan := h.plan?
  rw [perform_eq, perform_eq, h.opcode]
  generalize i.plan? = p at hplan ⊢
  generalize i'.plan? = p' at hplan ⊢
  cases hplan with
  | none => exact .fail _
  | some hp => exact .carryOut i.opcode hp

/-- An instruction does the same on machines that are alike. -/
theorem Action.step_alike {i i' : Instruction Value} (h : i.Alike i') :
    Action.Alike Control.Alike (step i) (step i') := by
  refine (perform_alike h).bind fun c c' hc m m' hm => .ok hc ?_
  exact ⟨⟨hm.frame.stack, hm.frame.locals, congrArg (· + 1) hm.frame.pc, hm.frame.maxStack⟩,
    hm.statics, hm.heap⟩

/-- Blocks that are alike are run alike, instruction by instruction. -/
theorem Action.runAll_alike {block block' : Block}
    (h : List.Forall₂ Instruction.Alike block block') :
    Action.Alike Control.Alike (runAll block) (runAll block') := by
  induction h with
  | nil => exact .pure .next
  | cons hi _ ih =>
    refine (step_alike hi).bind fun c c' hc => ?_
    cases hc with
    | next => exact ih
    | branch pc offset => exact .pure (.branch pc offset)
    | invoke method h => exact .pure (.invoke method h)
    | «return» h => exact .pure (.return h)

/-- The same instructions are next on machines that are alike. -/
theorem Block.getElem?_alike {block block' : Block}
    (h : List.Forall₂ Instruction.Alike block block') (pc : Nat) :
    Option.Rel Instruction.Alike block[pc]? block'[pc]? := by
  induction h generalizing pc with
  | nil => exact .none
  | cons hi _ ih =>
    cases pc with
    | zero => exact .some hi
    | succ pc => exact ih pc

/-- At two points of two executions the machines are alike, and so are the instructions that
are next and what they lead to. -/
structure Course.AtPace {Point Point' : Type} (c : Course Point) (c' : Course Point') (p : Point)
    (p' : Point') : Prop where
  machine : (c.machine p).Alike (c'.machine p')
  instruction : Option.Rel Instruction.Alike (c.block p)[(c.machine p).frame.pc]?
    (c'.block p')[(c'.machine p').frame.pc]?
  step : ∀ i i', c.AtInstruction p i → c'.AtInstruction p' i' →
    EndAlike Control.Alike (Action.step i (c.machine p)) (Action.step i' (c'.machine p'))

section

variable {block block' : Block} {m m' n n' : Machine}

/-- Runs of blocks that are alike keep pace as long as the machines are alike. -/
theorem Block.atPace_of_alike (hblock : List.Forall₂ Instruction.Alike block block')
    (hn : n.Alike n') : (block.course m).AtPace (block'.course m') n n' := by
  have hnext : Option.Rel Instruction.Alike block[n.frame.pc]? block'[n'.frame.pc]? :=
    hn.frame.pc ▸ getElem?_alike hblock n.frame.pc
  refine ⟨hn, hnext, fun i i' here here' => ?_⟩
  have here : block[n.frame.pc]? = some i := here
  have here' : block'[n'.frame.pc]? = some i' := here'
  rw [here, here'] at hnext
  cases hnext with
  | some hi => exact Action.step_alike hi n n' hn

/-- A run on one of two machines that are alike takes the other one with it. -/
theorem Block.exists_atPace (hblock : List.Forall₂ Instruction.Alike block block')
    (hm : m.Alike m') (hn : (block.course m).Visits n) :
    ∃ n', (block'.course m').Visits n' ∧ (block.course m).AtPace (block'.course m') n n' := by
  induction hn with
  | refl => exact ⟨m', .refl, atPace_of_alike hblock hm⟩
  | @tail n q _ hnext ih =>
    obtain ⟨n', hvisits, hpace⟩ := ih
    obtain ⟨i, here, hs⟩ := hnext
    have hinstruction : Option.Rel Instruction.Alike block[n.frame.pc]? block'[n'.frame.pc]? :=
      hpace.instruction
    rw [here] at hinstruction
    cases here' : block'[n'.frame.pc]? with
    | none =>
      rw [here'] at hinstruction
      cases hinstruction
    | some i' =>
      have hstep : EndAlike Control.Alike (Action.step i n) (Action.step i' n') :=
        hpace.step i i' here here'
      rw [hs] at hstep
      generalize hs' : Action.step i' n' = r at hstep
      cases hstep with
      | ok hc machine =>
        cases hc
        exact ⟨_, hvisits.tail ⟨i', here', hs'⟩, atPace_of_alike hblock machine⟩

/-- Which NaN a NaN is, and what strings and class literals hold, has no influence on a run. Two
runs of a block, of which the constants may differ in this, on machines that differ in this, end
with the same control event or the same failure, up to values that differ in this, and leave
machines that do. They keep pace, so that every instruction on the way takes and leaves the
same, decides the same and fails for the same reason. -/
theorem run_alike (hblock : List.Forall₂ Instruction.Alike block block') (hm : m.Alike m') :
    EndAlike Control.Alike (Action.run block m) (Action.run block' m') ∧
      ∀ n, (block.course m).Visits n →
        ∃ n', (block'.course m').Visits n' ∧
          (block.course m).AtPace (block'.course m') n n' := by
  refine ⟨?_, fun n hn => Block.exists_atPace hblock hm hn⟩
  have hrest := List.forall₂_drop m.frame.pc hblock
  have hrun := Action.runAll_alike hrest m m' hm
  rw [Action.run, Action.run, Action.get_bind_apply, Action.get_bind_apply, hm.frame.pc]
  exact hrun

/-- A block with a NaN among its constants compares it to one in a slot, when there is a string
on the stack: with other NaNs and another string it does the same. -/
theorem run_alike_fcmpl :
    let block (x : Single) : Block :=
      [⟨.ldc, .constant (.float x)⟩, ⟨.negate .float, .none⟩, ⟨.load .float none, .slot 0⟩,
        ⟨.compare (.float .less), .none⟩, ⟨.ifZero .lt, .branch 2⟩]
    let m (x : Single) (s : String) : Machine :=
      ⟨⟨[.reference (.to 0)], ⟨#[.float x]⟩, 0, 4⟩, .empty, ⟨#[.string s]⟩⟩
    let x : Single := .ofBits 0x7fc00000
    let y : Single := .ofBits 0xffc00001
    List.Forall₂ Instruction.Alike (block x) (block y) ∧ (m x "left").Alike (m y "right") ∧
      EndAlike Control.Alike (Action.run (block x) (m x "left"))
        (Action.run (block y) (m y "right")) ∧
      ∀ n, ((block x).course (m x "left")).Visits n →
        ∃ n', ((block y).course (m y "right")).Visits n' ∧
          ((block x).course (m x "left")).AtPace ((block y).course (m y "right")) n n' := by
  intro block m x y
  have hxy : x.Alike y := .inr (by decide)
  have hblock : List.Forall₂ Instruction.Alike (block x) (block y) :=
    .cons ⟨rfl, .constant (.float hxy)⟩
      (.cons ⟨rfl, .same _⟩ (.cons ⟨rfl, .same _⟩
        (.cons ⟨rfl, .same _⟩ (.cons ⟨rfl, .same _⟩ .nil))))
  have hm : (m x "left").Alike (m y "right") := by
    refine ⟨⟨.cons (.reference _) .nil, ?_, rfl, rfl⟩, fun name => .none, ?_⟩
    · rintro (_ | n)
      · exact .some (.float hxy)
      · exact .none
    · rintro (_ | _ | n)
      · exact .none
      · exact .some .none
      · exact .none
  exact ⟨hblock, hm, run_alike hblock hm⟩

end

end StackMachine
