import StackMachine.Literal
import StackMachine.Step

/-!
# Invocations

Running a block until it returns: branches are taken and methods are called. Every
activation may take a limited number of branches, and calls may nest to a limited
depth, so an invocation always ends. An activation that reaches the end of its
block without returning fails.
-/

namespace StackMachine

/-- The bodies of the methods that can be called. -/
structure Methods where
  /-- Names and bodies; the first one of a name counts. -/
  bodies : List (String × Block)

namespace Methods

/-- No methods. -/
def empty : Methods := ⟨[]⟩

/-- Add a method, in place of any other of its name. -/
def insert (m : Methods) (name : String) (body : Block) : Methods := ⟨(name, body) :: m.bodies⟩

/-- The body of a method. -/
def find? (m : Methods) (name : String) : Option Block := m.bodies.lookup name

end Methods

/-- How many branches an activation may take. -/
def branchLimit : Nat := 10000

/-- How deep calls may nest. -/
def callLimit : Nat := 64

/-- Why an invocation did not return. -/
inductive InvocationError where
  /-- An instruction could not complete. -/
  | failure (e : Failure)
  /-- An activation took too many branches. -/
  | tooManyBranches
  /-- Calls were nested too deep. -/
  | tooManyCalls
  /-- There is no method of that name. -/
  | unknownMethod (name : String)
  /-- A method returned something else than its descriptor says. -/
  | wrongResult (method : MethodRef) (found : Option Kind)
  /-- An activation came to the end of its block. -/
  | endOfBlock (pc : Nat)
  /-- A branch led out of the block. -/
  | branchOutside (pc : Nat) (target : Int) (length : Nat)
deriving DecidableEq, Repr

/-- The wording of an error. -/
def InvocationError.message : InvocationError → String
  | failure e => e.message
  | tooManyBranches => "more than " ++ Numeral.natText branchLimit ++ " branches taken"
  | tooManyCalls => "call depth exceeds " ++ Numeral.natText callLimit
  | unknownMethod name => "no method named '" ++ name ++ "'"
  | wrongResult m found =>
    m.name ++ " returned " ++ (found.map Kind.name).getD "void" ++ ", descriptor says " ++
      m.descriptor
  | endOfBlock pc => "fell off the end of the block at " ++ Numeral.natText pc
  | branchOutside pc target length =>
    "branch at " ++ Numeral.natText pc ++ " to " ++ Numeral.intText target ++
      " is outside the block (length " ++ Numeral.natText length ++ ")"

/-- The text of a control event. -/
def Control.text (h : Heap) : Control → String
  | .return (some v) => "return " ++ v.text h
  | .return none => "return void"
  | .branch pc offset =>
    "branch " ++ Numeral.signedText offset.toInt ++ " at " ++ Numeral.natText pc
  | .invoke m args => "invoke " ++ m.name ++ "(" ++ ", ".intercalate (args.map (·.text h)) ++ ")"
  | .next => "fallthrough"

/-- The instruction that a branch leads to. -/
def branchTarget (pc : Nat) (offset : Int16) (length : Nat) : Except InvocationError Nat :=
  let target := (pc : Int) + offset.toInt
  if 0 ≤ target ∧ target < length then .ok target.toNat
  else .error (.branchOutside pc target length)

/-- A stretch of an invocation, which leaves a machine behind also when it fails. -/
abbrev Invocation (α : Type) := EStateM InvocationError Machine α

namespace Invocation

/-- An action on the running activation. -/
def ofAction {α : Type} (a : Action α) : Invocation α := fun m =>
  match a m with
  | .ok x m => .ok x m
  | .error e m => .error (.failure e) m

/-- Run in another frame, and come back to the present one in any case. -/
def inFrame {α : Type} (frame : Frame) (body : Invocation α) : Invocation α := fun m =>
  match body { m with frame := frame } with
  | .ok x m' => .ok x { m' with frame := m.frame }
  | .error e m' => .error e { m' with frame := m.frame }

/-- Go to an instruction of the block. -/
def jump (pc : Nat) : Invocation Unit :=
  modify fun m => { m with frame := { m.frame with pc := pc } }

/-- How a stretch of an activation without branches ends. -/
inductive Exit where
  /-- The activation returned. -/
  | returned (result : Option Value)
  /-- A branch was taken from the instruction at `pc`. -/
  | branched (pc : Nat) (offset : Int16)

/-- Execute instructions in order up to a return or a branch, with `call` to call
methods. -/
def follow (call : MethodRef → List Value → Invocation Unit) :
    List (Instruction Value) → Invocation Exit
  | [] => do throw (.endOfBlock (← get).frame.pc)
  | i :: rest => do
    match ← ofAction (Action.step i) with
    | .next => follow call rest
    | .return v => return .returned v
    | .branch pc offset => return .branched pc offset
    | .invoke m args =>
      call m args
      follow call rest

/-- Execute the rest of a block in the present frame until it returns, when a number of
branches may be taken. -/
def activate (call : MethodRef → List Value → Invocation Unit) (block : Block) (branches : Nat)
    (rest : List (Instruction Value)) : Invocation (Option Value) := do
  match ← follow call rest with
  | .returned v => return v
  | .branched pc offset =>
    match branches with
    | 0 => throw .tooManyBranches
    | branches + 1 =>
      match branchTarget pc offset block.length with
      | .error e => throw e
      | .ok target =>
        jump target
        activate call block branches (block.drop target)

/-- Call a method and push its result, when a number of calls may nest. The method
runs in a frame of its own, whose stack may become as deep as that of its caller. -/
def call (methods : Methods) : Nat → MethodRef → List Value → Invocation Unit
  | 0, _, _ => throw .tooManyCalls
  | calls + 1, m, args =>
    match methods.find? m.name with
    | none => throw (.unknownMethod m.name)
    | some body => do
      let frame := Frame.new (.ofArguments args) (← get).frame.maxStack
      let result ← inFrame frame (activate (call methods calls) body branchLimit body)
      if result.map Value.kind ≠ m.result then
        throw (.wrongResult m (result.map Value.kind))
      ofAction (Action.resume result)

/-- Execute a block from the current instruction on until it returns. -/
def invoke (methods : Methods) (block : Block) : Invocation (Option Value) := do
  activate (call methods callLimit) block branchLimit (block.drop (← get).frame.pc)

end Invocation

end StackMachine
