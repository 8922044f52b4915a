import StackMachine.Failure
import StackMachine.Frame
import StackMachine.Heap
import StackMachine.Statics

/-!
# The machine

A machine is the frame of the running activation together with the static fields
and the heap, which all activations share. Actions on a machine can fail; what
they did before failing stays done.
-/

namespace StackMachine

/-- The running activation and the state that it shares with all others. -/
structure Machine where
  /-- The running activation. -/
  frame : Frame
  /-- The static fields. -/
  statics : Statics
  /-- The objects. -/
  heap : Heap

/-- An action on a machine, which leaves a machine behind also when it fails. -/
abbrev Action (α : Type) := EStateM Failure Machine α

namespace Action

/-- Change the frame. -/
def modifyFrame (f : Frame → Frame) : Action Unit :=
  modify fun m => { m with frame := f m.frame }

/-- Fail at the current instruction. -/
def fail {α : Type} (c : Cause) : Action α := do
  throw ⟨(← get).frame.pc, c⟩

/-- Push a value. -/
def push (v : Value) : Action Unit := do
  let frame := (← get).frame
  if frame.maxStack ≤ frame.stack.length then fail .stackOverflow
  else modifyFrame fun f => { f with stack := v :: f.stack }

/-- Pop a value of any kind. -/
def pop : Action Value := do
  match (← get).frame.stack with
  | [] => fail .stackUnderflow
  | v :: rest =>
    modifyFrame fun f => { f with stack := rest }
    return v

/-- Pop a value of a given kind, on behalf of an opcode. A value of another kind is
gone from the stack when the action fails. -/
def popAs (op : Opcode) (k : Kind) : Action k.Carrier := do
  let v ← pop
  match v.as? k with
  | some x => return x
  | none => fail (.kindMismatch op k v.kind)

/-- Push a value of a given kind. -/
def pushAs (k : Kind) (x : k.Carrier) : Action Unit := push (.of k x)

/-- The result of an operation that may have failed. -/
def ofFault {α : Type} : Except Fault α → Action α
  | .ok x => return x
  | .error e => fail (.fault e)

/-- The result of an access to a static field that may have failed. -/
def ofField {α : Type} : Except FieldError α → Action α
  | .ok x => return x
  | .error (.unknown name) => fail (.unknownField name)
  | .error (.kindMismatch name declared found) => fail (.fieldKindMismatch name declared found)

/-- Push the result of a call, if it has one. -/
def resume : Option Value → Action Unit
  | some v => push v
  | none => return ()

end Action

end StackMachine
