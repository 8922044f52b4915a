import StackMachine.Invocation

/-!
# A machine with a list of activations

The same programs, run one instruction at a time. Instead of calling itself, the flat
machine keeps a list of the activations that wait for a result, and instead of running
up to the next control event it moves by single instructions. Every limit and every
check is made where the instruction that it concerns is executed, so that an order of
checks can be read off a move.
-/

namespace StackMachine

/-- An activation under way. -/
structure Activation where
  /-- The block that it executes. -/
  block : Block
  /-- Its frame. -/
  frame : Frame
  /-- How many branches it has taken. -/
  branches : Nat

/-- An activation that waits for the result of a method. -/
structure Caller where
  /-- The activation, at the instruction after the call. -/
  activation : Activation
  /-- The method as the call names it. -/
  method : MethodRef

/-- A running activation, the activations that wait for it, and what they share. -/
structure FlatMachine where
  /-- The running activation. -/
  top : Activation
  /-- Those that wait, the one that waits for the running activation first. -/
  callers : List Caller
  /-- The static fields. -/
  statics : Statics
  /-- The objects. -/
  heap : Heap

/-- What a move leads to. -/
inductive Moved where
  | running (f : FlatMachine)
  | returned (result : Option Value) (f : FlatMachine)
  | failed (e : InvocationError) (f : FlatMachine)

namespace FlatMachine

/-- The flat machine at the beginning of an invocation. -/
def start (block : Block) (m : Machine) : FlatMachine :=
  ⟨⟨block, m.frame, 0⟩, [], m.statics, m.heap⟩

/-- What an instruction of the running activation works on. -/
def machine (f : FlatMachine) : Machine := ⟨f.top.frame, f.statics, f.heap⟩

/-- The flat machine after an instruction of the running activation. -/
def withMachine (f : FlatMachine) (m : Machine) : FlatMachine where
  top := { f.top with frame := m.frame }
  callers := f.callers
  statics := m.statics
  heap := m.heap

/-- The activation at the bottom, below those that wait. -/
def bottom (top : Activation) : List Caller → Activation
  | [] => top
  | c :: callers => bottom c.activation callers

/-- What the activation that was started first sees of the machine. -/
def outermost (f : FlatMachine) : Machine := ⟨(bottom f.top f.callers).frame, f.statics, f.heap⟩

/-- The flat machine where a branch has landed. -/
def land (f : FlatMachine) (pc : Nat) : FlatMachine :=
  { f with
    top := { f.top with frame := { f.top.frame with pc := pc }, branches := f.top.branches + 1 } }

/-- Take a branch. -/
def branch (f : FlatMachine) (pc : Nat) (offset : Int16) : Moved :=
  let target := (pc : Int) + offset.toInt
  if branchLimit < f.top.branches + 1 then .failed .tooManyBranches f
  else if 0 ≤ target ∧ target < f.top.block.length then .running (f.land target.toNat)
  else .failed (.branchOutside pc target f.top.block.length) f

/-- Call a method, which finds its arguments in the first slots. -/
def call (methods : Methods) (f : FlatMachine) (method : MethodRef) (args : List Value) : Moved :=
  if callLimit ≤ f.callers.length then .failed .tooManyCalls f
  else
    match methods.find? method.name with
    | none => .failed (.unknownMethod method.name) f
    | some body =>
      let slots := args ++ List.replicate (8 - args.length) (Value.int 0)
      .running { f with
        top := ⟨body, ⟨[], ⟨slots.toArray⟩, 0, f.top.frame.maxStack⟩, 0⟩
        callers := ⟨f.top, method⟩ :: f.callers }

/-- Return, to the activation that waits or from the invocation. -/
def giveBack (f : FlatMachine) (result : Option Value) : Moved :=
  match f.callers with
  | [] => .returned result f
  | ⟨caller, method⟩ :: callers =>
    let f' : FlatMachine := { f with top := caller, callers := callers }
    if result.map Value.kind ≠ method.result then
      .failed (.wrongResult method (result.map Value.kind)) f'
    else
      match result with
      | none => .running f'
      | some v =>
        let frame := caller.frame
        if frame.maxStack ≤ frame.stack.length then
          .failed (.failure ⟨frame.pc, .stackOverflow⟩) f'
        else
          .running { f' with
            top := { caller with frame := { frame with stack := v :: frame.stack } } }

/-- Execute one instruction. -/
def move (methods : Methods) (f : FlatMachine) : Moved :=
  match f.top.block[f.top.frame.pc]? with
  | none => .failed (.endOfBlock f.top.frame.pc) f
  | some i =>
    match Action.step i f.machine with
    | .error e m => .failed (.failure e) (f.withMachine m)
    | .ok .next m => .running (f.withMachine m)
    | .ok (.branch pc offset) m => (f.withMachine m).branch pc offset
    | .ok (.invoke method args) m => (f.withMachine m).call methods method args
    | .ok (.return v) m => (f.withMachine m).giveBack v

/-- The flat machine comes to a halt after some moves. An outcome is told as the activation
that was started first sees it. -/
inductive Halts (methods : Methods) :
    FlatMachine → EStateM.Result InvocationError Machine (Option Value) → Prop where
  | returned {f f' : FlatMachine} {result : Option Value}
      (moved : f.move methods = .returned result f') : Halts methods f (.ok result f'.outermost)
  | failed {f f' : FlatMachine} {e : InvocationError}
      (moved : f.move methods = .failed e f') : Halts methods f (.error e f'.outermost)
  | running {f f' : FlatMachine} {r : EStateM.Result InvocationError Machine (Option Value)}
      (moved : f.move methods = .running f') (halts : Halts methods f' r) : Halts methods f r

variable {methods : Methods} {f : FlatMachine}
  {r r' : EStateM.Result InvocationError Machine (Option Value)}

/-- The flat machine halts in one way only. -/
theorem Halts.unique (h : Halts methods f r) (h' : Halts methods f r') : r = r' := by
  induction h with
  | returned moved =>
    cases h' with
    | returned moved' =>
      cases moved.symm.trans moved'
      rfl
    | failed moved' | running moved' => cases moved.symm.trans moved'
  | failed moved =>
    cases h' with
    | failed moved' =>
      cases moved.symm.trans moved'
      rfl
    | returned moved' | running moved' => cases moved.symm.trans moved'
  | running moved halts ih =>
    cases h' with
    | running moved' halts' =>
      cases moved.symm.trans moved'
      exact ih halts'
    | returned moved' | failed moved' => cases moved.symm.trans moved'

end FlatMachine

end StackMachine
