import StackMachine.Proofs.Signature

/-!
# Plans

Whatever an instruction does, it does in one order: it checks its operand, takes its
arguments off the stack, computes from them and from the slots, static fields and
objects, writes to these, and pushes its results. A plan is the part of this that
differs from instruction to instruction: what is taken, and what follows from it.
Performing an instruction is carrying out its plan (`perform_eq_carryOut`), so that a
property of all instructions is a property of plans, and no proof about executions
has to look at the opcodes again.
-/

namespace StackMachine

/-- What instructions work on besides the operand stack. -/
structure Store where
  /-- The local slots. -/
  locals : Locals
  /-- The static fields. -/
  statics : Statics
  /-- The objects. -/
  heap : Heap

namespace Machine

/-- The store of a machine. -/
def store (m : Machine) : Store := ⟨m.frame.locals, m.statics, m.heap⟩

/-- The machine with another operand stack. -/
def withStack (m : Machine) (stack : List Value) : Machine :=
  { m with frame := { m.frame with stack := stack } }

/-- The machine with another store. -/
def withStore (m : Machine) (s : Store) : Machine :=
  { frame := { m.frame with locals := s.locals }, statics := s.statics, heap := s.heap }

variable (m : Machine) (s : Store) (stack : List Value)

@[simp] theorem stack_withStack : (m.withStack stack).frame.stack = stack := rfl
@[simp] theorem pc_withStack : (m.withStack stack).frame.pc = m.frame.pc := rfl
@[simp] theorem maxStack_withStack : (m.withStack stack).frame.maxStack = m.frame.maxStack := rfl
@[simp] theorem store_withStack : (m.withStack stack).store = m.store := rfl
@[simp] theorem stack_withStore : (m.withStore s).frame.stack = m.frame.stack := rfl
@[simp] theorem pc_withStore : (m.withStore s).frame.pc = m.frame.pc := rfl
@[simp] theorem maxStack_withStore : (m.withStore s).frame.maxStack = m.frame.maxStack := rfl
@[simp] theorem store_withStore : (m.withStore s).store = s := rfl
@[simp] theorem withStore_store : m.withStore m.store = m := rfl
@[simp] theorem withStack_stack : m.withStack m.frame.stack = m := rfl

@[simp] theorem withStack_withStack (stack' : List Value) :
    (m.withStack stack).withStack stack' = m.withStack stack' := rfl

end Machine

/-- Where an instruction leads. -/
inductive Move where
  | next
  | branch (offset : Int16)
  | invoke (method : MethodRef) (args : List Value)
  | return (value : Option Value)

/-- The control event of an instruction at a given index. -/
def Move.control (pc : Nat) : Move → Control
  | next => .next
  | branch offset => .branch pc offset
  | invoke m args => .invoke m args
  | .return v => .return v

/-- What follows from an instruction's arguments. -/
structure Effect where
  /-- The values to push, in this order. -/
  pushes : List Value
  /-- The slots, static fields and objects from then on. -/
  store : Store
  /-- Where the instruction leads. -/
  move : Move

namespace Effect

/-- Push a value. -/
def push (v : Value) (s : Store) : Effect := ⟨[v], s, .next⟩

/-- Write and push nothing. -/
def write (s : Store) : Effect := ⟨[], s, .next⟩

/-- Leave for somewhere else. -/
def leave (move : Move) (s : Store) : Effect := ⟨[], s, move⟩

end Effect

/-- Arguments as demanded, the topmost first. -/
@[reducible] def Arguments : Demand → Type
  | [] => Unit
  | none :: d => Value × Arguments d
  | some k :: d => k.Carrier × Arguments d

namespace Arguments

/-- The arguments as a list of values. -/
def values : {d : Demand} → Arguments d → List Value
  | [], _ => []
  | none :: _, (v, args) => v :: values args
  | some k :: _, (x, args) => .of k x :: values args

@[simp] theorem length_values {d : Demand} (args : Arguments d) :
    args.values.length = d.length := by
  induction d with
  | nil => rfl
  | cons o d ih => cases o <;> simp [values, ih]

/-- Values of the demanded kinds are arguments. -/
theorem exists_of_take? {d : Demand} {stack : List Value} {taken rest : List Kind}
    (h : d.take? (stack.map Value.kind) = some (taken, rest)) :
    ∃ (args : Arguments d) (below : List Value), stack = args.values ++ below ∧
      args.values.map Value.kind = taken ∧ below.map Value.kind = rest := by
  induction d generalizing stack taken rest with
  | nil =>
    simp only [Demand.take?, Option.some.injEq, Prod.mk.injEq] at h
    exact ⟨(), stack, rfl, h.1, h.2⟩
  | cons o d ih =>
    cases stack with
    | nil => simp [Demand.take?] at h
    | cons v stack =>
      simp only [List.map_cons, Demand.take?] at h
      split at h
      · rename_i ho
        obtain ⟨⟨taken', rest'⟩, hd, he⟩ := Option.map_eq_some_iff.1 h
        obtain ⟨args, below, rfl, ht, hr⟩ := ih hd
        simp only [Prod.mk.injEq] at he
        cases o with
        | none => exact ⟨(v, args), below, rfl, by simp [values, ht, he.1], hr.trans he.2⟩
        | some k =>
          have hk : v.kind = k := by simpa [eq_comm] using ho
          obtain ⟨x, hv⟩ := Value.exists_of_kind hk
          refine ⟨(x, args), below, by simp [values, hv], ?_, hr.trans he.2⟩
          simp [values, ht, ← he.1, hk]
      · simp at h

end Arguments

/-- What an instruction takes and leaves, and what follows from it in a given store. -/
structure Plan where
  /-- What is taken off the stack. -/
  demand : Demand
  /-- What is left in the place of taken values. -/
  gives : List Kind → List Kind
  /-- What follows from the arguments, unless they are refused. -/
  effect : Arguments demand → Store → Except Cause Effect

/-- The failure that a missing or mismatched static field is. -/
def FieldError.cause : FieldError → Cause
  | unknown name => .unknownField name
  | kindMismatch name declared found => .fieldKindMismatch name declared found

/-- The array that a reference points to. -/
def Heap.arrayAt (h : Heap) (op : Opcode) (r : Reference) : Except Cause ArrayObject :=
  match h.object? r with
  | none => .error .nullReference
  | some (.array a) => .ok a
  | some _ => .error (.notAnArray op)

/-- The array that a reference points to, which has to be of a given kind. -/
def Heap.arrayOf (h : Heap) (op : Opcode) (k : ElementKind) (r : Reference) :
    Except Cause ArrayObject := do
  let a ← h.arrayAt op r
  if a.declared = k then return a else throw (.arrayKindMismatch op a.declared)

namespace Plan

/-- The kinds that a plan takes and leaves. -/
def signature (p : Plan) : Signature := ⟨p.demand, p.gives⟩

/-- Push a value. -/
def pushing (v : Value) : Plan := ⟨[], fun _ => [v.kind], fun _ s => .ok (.push v s)⟩

/-- Push the value of a slot. -/
def loading (op : Opcode) (k : Kind) (index : UInt16) : Plan where
  demand := []
  gives _ := [k]
  effect _ s := do
    let v ← (s.locals.load index).mapError .fault
    if v.kind = k then return .push v s else throw (.kindMismatch op k v.kind)

/-- The store with the value of a slot replaced. -/
def setSlot (index : UInt16) (v : Value) (s : Store) : Except Cause Effect := do
  let locals ← (s.locals.store index v).mapError .fault
  return .write { s with locals := locals }

/-- Give a slot a value. -/
def storing (k : Kind) (index : UInt16) : Plan :=
  ⟨[some k], fun _ => [], fun args s => setSlot index (.of k args.1) s⟩

/-- Add to the int in a slot. -/
def incrementing (op : Opcode) (index : UInt16) (delta : Int16) : Plan where
  demand := []
  gives _ := []
  effect _ s := do
    match ← (s.locals.load index).mapError .fault with
    | .int a => setSlot index (.int (increment a delta)) s
    | v => throw (.kindMismatch op .int v.kind)

/-- Push an element of an array. -/
def loadingElement (op : Opcode) (k : ElementKind) : Plan where
  demand := [some .int, some .reference]
  gives _ := [k.valueKind]
  effect args s := do
    let (index, r, _) := args
    let a ← s.heap.arrayOf op k r
    let v ← (a.load index).mapError .fault
    return .push v s

/-- Replace an element of an array. -/
def storingElement (op : Opcode) (k : ElementKind) : Plan where
  demand := [some k.valueKind, some .int, some .reference]
  gives _ := []
  effect args s := do
    let (x, index, r, _) := args
    let a ← s.heap.arrayOf op k r
    let a ← (a.store index (.of k.valueKind x)).mapError .fault
    return .write { s with heap := s.heap.setArray r a }

/-- Push a new array. -/
def allocating (k : ElementKind) : Plan where
  demand := [some .int]
  gives _ := [.reference]
  effect args s :=
    let size : Int32 := args.1
    if size < 0 then .error (.negativeArraySize size)
    else
      let (r, heap) := s.heap.alloc (.array (.zeroed k size.toInt.toNat))
      .ok (.push (.reference r) { s with heap := heap })

/-- Push the length of an array. -/
def measuring (op : Opcode) : Plan where
  demand := [some .reference]
  gives _ := [.int]
  effect args s := do
    let a ← s.heap.arrayAt op args.1
    return .push (.int (Action.lengthValue a.length)) s

/-- Drop a value. -/
def dropping : Plan := ⟨[none], fun _ => [], fun _ s => .ok (.write s)⟩

/-- Push a value twice. -/
def duplicating : Plan := ⟨[none], fun ks => ks ++ ks, fun (v, _) s => .ok ⟨[v, v], s, .next⟩⟩

/-- Push two values in the order in which they were taken. -/
def exchanging : Plan :=
  ⟨[none, none], List.reverse, fun (b, a, _) s => .ok ⟨[b, a], s, .next⟩⟩

/-- Push what two numbers, the second one on top, give. -/
def binary (k target : Kind) (f : k.Carrier → k.Carrier → Except Fault target.Carrier) :
    Plan where
  demand := [some k, some k]
  gives _ := [target]
  effect args s := do
    let (b, a, _) := args
    let x ← (f a b).mapError .fault
    return .push (.of target x) s

/-- Push what a number gives. -/
def unary (k target : Kind) (f : k.Carrier → target.Carrier) : Plan :=
  ⟨[some k], fun _ => [target], fun args s => .ok (.push (.of target (f args.1)) s)⟩

/-- Push what a number and the int on top of it give. -/
def shifting (d : Shift) (n : Integral) : Plan where
  demand := [some .int, some n.kind]
  gives _ := [n.kind]
  effect args s :=
    let (amount, a, _) := args
    .ok (.push (.of n.kind (d.apply n a amount)) s)

/-- Branch if a condition holds of the arguments. -/
def branching (d : Demand) (test : Arguments d → Bool) (offset : Int16) : Plan :=
  ⟨d, fun _ => [], fun args s => .ok (.leave (if test args then .branch offset else .next) s)⟩

/-- Push a static field. -/
def getting (f : FieldRef) : Plan where
  demand := []
  gives _ := [f.kind]
  effect _ s := do
    let v ← (s.statics.get f.name).mapError FieldError.cause
    if v.kind = f.kind then return .push v s else throw (.fieldKindMismatch f.name v.kind f.kind)

/-- Replace a static field. -/
def putting (f : FieldRef) : Plan where
  demand := [some f.kind]
  gives _ := []
  effect args s := do
    let statics ← (s.statics.put f.name (.of f.kind args.1)).mapError FieldError.cause
    return .write { s with statics := statics }

/-- Call a method, whose last argument is on top. -/
def calling (m : MethodRef) : Plan where
  demand := m.params.reverse.map some
  gives _ := []
  effect args s := .ok (.leave (.invoke m args.values.reverse) s)

/-- Return a value. -/
def returning (k : Kind) : Plan :=
  ⟨[some k], fun _ => [], fun args s => .ok (.leave (.return (some (.of k args.1))) s)⟩

/-- Return without a value. -/
def leaving : Plan := ⟨[], fun _ => [], fun _ s => .ok (.leave (.return none) s)⟩

end Plan

/-- The plan of an instruction, unless its operand does not fit. -/
def Instruction.plan? (i : Instruction Value) : Option Plan :=
  let op := i.opcode
  match op with
  | .constant c => some (.pushing c.value)
  | .bipush => (i.immediate? (-128) 127).map fun n => .pushing (.int n)
  | .sipush => (i.immediate? (-32768) 32767).map fun n => .pushing (.int n)
  | .ldc | .ldcWide => (i.constant? false).map .pushing
  | .ldc2 => (i.constant? true).map .pushing
  | .load k slot => (i.slot? slot).map (.loading op k)
  | .store k slot => (i.slot? slot).map (.storing k)
  | .arrayLoad k => some (.loadingElement op k)
  | .arrayStore k => some (.storingElement op k)
  | .pop => some .dropping
  | .dup => some .duplicating
  | .swap => some .exchanging
  | .arithmetic o n => some (.binary n.kind n.kind (o.apply n))
  | .negate n => some (.unary n.kind n.kind n.negate)
  | .shift d n => some (.shifting d n)
  | .bitwise o n => some (.binary n.kind n.kind fun a b => .ok (o.apply n a b))
  | .iinc =>
    match i.operand with
    | .increment index delta => some (.incrementing op index delta)
    | _ => none
  | .convert c => some (.unary c.source.kind c.target.kind c.apply)
  | .compare c =>
    some (.binary c.operand.kind .int fun a b => .ok (orderingValue (c.apply a b)))
  | .ifZero c => i.offset?.map (.branching [some .int] fun (a, _) => c.tests a)
  | .ifInt c => i.offset?.map (.branching [some .int, some .int] fun (b, a, _) => c.compares a b)
  | .ifSame expected =>
    i.offset?.map (.branching [some .reference, some .reference] fun args =>
      decide (args.2.1 = args.1) == expected)
  | .ifNull expected =>
    i.offset?.map (.branching [some .reference] fun args => decide (args.1 = .null) == expected)
  | .returnValue k => some (.returning k)
  | .returnVoid => some .leaving
  | .getstatic => i.field?.map .getting
  | .putstatic => i.field?.map .putting
  | .invokestatic => i.method?.map .calling
  | .newarray => i.primitive?.map .allocating
  | .anewarray => some (.allocating .reference)
  | .arraylength => some (.measuring op)

/-- The families of plans, with what they need and where they lead. A property of all
instructions is proved by one case for each. -/
inductive Plan.Family : Plan → Need → Flow → Prop where
  | pushing (v : Value) : Family (.pushing v) .nothing .next
  | loading (op : Opcode) (k : Kind) (index : UInt16) :
      Family (.loading op k index) (.slot index k) .next
  | storing (k : Kind) (index : UInt16) : Family (.storing k index) (.target index k) .next
  | incrementing (op : Opcode) (index : UInt16) (delta : Int16) :
      Family (.incrementing op index delta) (.slot index .int) .next
  | loadingElement (op : Opcode) (k : ElementKind) : Family (.loadingElement op k) .nothing .next
  | storingElement (op : Opcode) (k : ElementKind) : Family (.storingElement op k) .nothing .next
  | allocating (k : ElementKind) : Family (.allocating k) .nothing .next
  | measuring (op : Opcode) : Family (.measuring op) .nothing .next
  | dropping : Family .dropping .nothing .next
  | duplicating : Family .duplicating .nothing .next
  | exchanging : Family .exchanging .nothing .next
  | arithmetic (o : Arithmetic) (n : Numeric) :
      Family (.binary n.kind n.kind (o.apply n)) .nothing .next
  | bitwise (o : Bitwise) (n : Integral) :
      Family (.binary n.kind n.kind fun a b => .ok (o.apply n a b)) .nothing .next
  | compare (c : ThreeWay) :
      Family (.binary c.operand.kind .int fun a b => .ok (orderingValue (c.apply a b)))
        .nothing .next
  | negate (n : Numeric) : Family (.unary n.kind n.kind n.negate) .nothing .next
  | convert (c : Conversion) : Family (.unary c.source.kind c.target.kind c.apply) .nothing .next
  | shifting (d : Shift) (n : Integral) : Family (.shifting d n) .nothing .next
  | branching (d : Demand) (test : Arguments d → Bool) (offset : Int16) :
      Family (.branching d test offset) .nothing (.branch offset)
  | getting (f : FieldRef) : Family (.getting f) (.field f) .next
  | putting (f : FieldRef) : Family (.putting f) (.field f) .next
  | calling (m : MethodRef) : Family (.calling m) .nothing (.call m)
  | returning (k : Kind) : Family (.returning k) .nothing (.return (some k))
  | leaving : Family .leaving .nothing (.return none)

namespace Instruction

/-- The instructions whose operands fit, and what they plan. Opcodes and operands are looked at
together here and nowhere else: what holds of all plans of instructions is proved by one case for
each rule. -/
inductive Plans : Instruction Value → Plan → Prop where
  | constant (c : SmallConstant) (o : Operand Value) : Plans ⟨.constant c, o⟩ (.pushing c.value)
  | bipush {o : Operand Value} {n : Int32}
      (fits : immediate? ⟨.bipush, o⟩ (-128) 127 = some n) : Plans ⟨.bipush, o⟩ (.pushing (.int n))
  | sipush {o : Operand Value} {n : Int32}
      (fits : immediate? ⟨.sipush, o⟩ (-32768) 32767 = some n) :
      Plans ⟨.sipush, o⟩ (.pushing (.int n))
  | ldc {o : Operand Value} {v : Value} (fits : constant? ⟨.ldc, o⟩ false = some v) :
      Plans ⟨.ldc, o⟩ (.pushing v)
  | ldcWide {o : Operand Value} {v : Value} (fits : constant? ⟨.ldcWide, o⟩ false = some v) :
      Plans ⟨.ldcWide, o⟩ (.pushing v)
  | ldc2 {o : Operand Value} {v : Value} (fits : constant? ⟨.ldc2, o⟩ true = some v) :
      Plans ⟨.ldc2, o⟩ (.pushing v)
  | load {k : Kind} {slot : Option (Fin 4)} {o : Operand Value} {index : UInt16}
      (names : slot? ⟨.load k slot, o⟩ slot = some index) :
      Plans ⟨.load k slot, o⟩ (.loading (.load k slot) k index)
  | store {k : Kind} {slot : Option (Fin 4)} {o : Operand Value} {index : UInt16}
      (names : slot? ⟨.store k slot, o⟩ slot = some index) :
      Plans ⟨.store k slot, o⟩ (.storing k index)
  | iinc (index : UInt16) (delta : Int16) :
      Plans ⟨.iinc, .increment index delta⟩ (.incrementing .iinc index delta)
  | arrayLoad (k : ElementKind) (o : Operand Value) :
      Plans ⟨.arrayLoad k, o⟩ (.loadingElement (.arrayLoad k) k)
  | arrayStore (k : ElementKind) (o : Operand Value) :
      Plans ⟨.arrayStore k, o⟩ (.storingElement (.arrayStore k) k)
  | newarray {o : Operand Value} {k : ElementKind}
      (fits : primitive? ⟨.newarray, o⟩ = some k) : Plans ⟨.newarray, o⟩ (.allocating k)
  | anewarray (o : Operand Value) : Plans ⟨.anewarray, o⟩ (.allocating .reference)
  | arraylength (o : Operand Value) : Plans ⟨.arraylength, o⟩ (.measuring .arraylength)
  | pop (o : Operand Value) : Plans ⟨.pop, o⟩ .dropping
  | dup (o : Operand Value) : Plans ⟨.dup, o⟩ .duplicating
  | swap (o : Operand Value) : Plans ⟨.swap, o⟩ .exchanging
  | arithmetic (a : Arithmetic) (n : Numeric) (o : Operand Value) :
      Plans ⟨.arithmetic a n, o⟩ (.binary n.kind n.kind (a.apply n))
  | bitwise (b : Bitwise) (n : Integral) (o : Operand Value) :
      Plans ⟨.bitwise b n, o⟩ (.binary n.kind n.kind fun x y => .ok (b.apply n x y))
  | compare (c : ThreeWay) (o : Operand Value) :
      Plans ⟨.compare c, o⟩
        (.binary c.operand.kind .int fun x y => .ok (orderingValue (c.apply x y)))
  | negate (n : Numeric) (o : Operand Value) :
      Plans ⟨.negate n, o⟩ (.unary n.kind n.kind n.negate)
  | convert (c : Conversion) (o : Operand Value) :
      Plans ⟨.convert c, o⟩ (.unary c.source.kind c.target.kind c.apply)
  | shift (d : Shift) (n : Integral) (o : Operand Value) : Plans ⟨.shift d n, o⟩ (.shifting d n)
  | ifZero (c : Condition) (offset : Int16) :
      Plans ⟨.ifZero c, .branch offset⟩
        (.branching [some .int] (fun args => c.tests args.1) offset)
  | ifInt (c : Condition) (offset : Int16) :
      Plans ⟨.ifInt c, .branch offset⟩
        (.branching [some .int, some .int] (fun args => c.compares args.2.1 args.1) offset)
  | ifSame (expected : Bool) (offset : Int16) :
      Plans ⟨.ifSame expected, .branch offset⟩
        (.branching [some .reference, some .reference]
          (fun args => decide (args.2.1 = args.1) == expected) offset)
  | ifNull (expected : Bool) (offset : Int16) :
      Plans ⟨.ifNull expected, .branch offset⟩
        (.branching [some .reference] (fun args => decide (args.1 = .null) == expected) offset)
  | getstatic (f : FieldRef) : Plans ⟨.getstatic, .field f⟩ (.getting f)
  | putstatic (f : FieldRef) : Plans ⟨.putstatic, .field f⟩ (.putting f)
  | invokestatic (m : MethodRef) : Plans ⟨.invokestatic, .method m⟩ (.calling m)
  | returnValue (k : Kind) (o : Operand Value) : Plans ⟨.returnValue k, o⟩ (.returning k)
  | returnVoid (o : Operand Value) : Plans ⟨.returnVoid, o⟩ .leaving

/-- An instruction that has a plan is an instance of one of the rules. -/
theorem plans_of_plan? {i : Instruction Value} {p : Plan} (h : i.plan? = some p) : i.Plans p := by
  obtain ⟨op, operand⟩ := i
  cases op with
  | bipush | sipush | ldc | ldcWide | ldc2 | load | store | newarray =>
    obtain ⟨a, ha, rfl⟩ := Option.map_eq_some_iff.1 h
    constructor
    exact ha
  | iinc | ifZero | ifInt | ifSame | ifNull | getstatic | putstatic | invokestatic =>
    -- One operand fits, the others have no plan.
    cases operand <;> cases h
    constructor
  | _ =>
    cases h
    constructor

/-- Every plan of an instruction belongs to a family. -/
theorem family_of_plan? {i : Instruction Value} {p : Plan} (h : i.plan? = some p) :
    p.Family i.need i.flow := by
  cases plans_of_plan? h with
  | load names | store names =>
    simp only [need, flow, names, Option.elim_some]
    constructor
  | _ => constructor

/-- An instruction's plan has its signature. -/
theorem signature?_eq (i : Instruction Value) : i.signature? = i.plan?.map Plan.signature := by
  obtain ⟨op, operand⟩ := i
  have hfixed {α : Type} (x : Option α) (f : α → Signature) (g : α → Plan)
      (h : ∀ a, f a = (g a).signature) : x.map f = (x.map g).map Plan.signature := by
    rw [Option.map_map]
    exact congrArg (x.map ·) (funext h)
  cases op with
  | iinc => cases operand <;> rfl
  | bipush | sipush | ldc | ldcWide | ldc2 | load | store | ifZero | ifInt | ifSame | ifNull
  | getstatic | putstatic | invokestatic | newarray => exact hfixed _ _ _ fun _ => rfl
  | _ => rfl

end Instruction

namespace Action

/-- Take arguments off the stack. -/
def takeAll (op : Opcode) : (d : Demand) → Action (Arguments d)
  | [] => return ()
  | none :: d => do
    let v ← pop
    let args ← takeAll op d
    return (v, args)
  | some k :: d => do
    let x ← popAs op k
    let args ← takeAll op d
    return (x, args)

theorem takeAll_nil (op : Opcode) : takeAll op [] = return () := rfl

/-- A value of any kind is popped before the rest is taken. -/
theorem takeAll_none (op : Opcode) (d : Demand) :
    takeAll op (none :: d) = pop >>= fun v => takeAll op d >>= fun args => return (v, args) := rfl

theorem takeAll_some (op : Opcode) (k : Kind) (d : Demand) :
    takeAll op (some k :: d) =
      popAs op k >>= fun x => takeAll op d >>= fun args => return (x, args) := rfl

/-- Push values in order. -/
def pushAll : List Value → Action Unit
  | [] => return ()
  | v :: vs => do
    push v
    pushAll vs

/-- What follows from the arguments, in the present store. -/
def consequence (effect : Store → Except Cause Effect) : Action Effect := do
  match effect (← get).store with
  | .ok e => return e
  | .error c => fail c

/-- Write, push and lead on. -/
def commit (e : Effect) : Action Control := do
  modify fun m => m.withStore e.store
  pushAll e.pushes
  return e.move.control (← get).frame.pc

/-- Carry out a plan. -/
def carryOut (op : Opcode) (p : Plan) : Action Control := do
  let args ← takeAll op p.demand
  let e ← consequence (p.effect args)
  commit e

end Action

end StackMachine
