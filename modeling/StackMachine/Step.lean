import StackMachine.Arithmetic
import StackMachine.Comparison
import StackMachine.Conversion
import StackMachine.Instruction
import StackMachine.Machine

/-!
# Steps

Executing one instruction checks its operand, pops what it needs from the top of
the stack down, and then pushes its result or reports a control event. Only a
completed instruction moves the frame on to the next one. A run executes the
instructions of a block one after another up to the first control event.
-/

namespace StackMachine

/-- What happens after an instruction. -/
inductive Control where
  /-- The next instruction follows. -/
  | next
  /-- A branch was taken from the instruction at `pc`. -/
  | branch (pc : Nat) (offset : Int16)
  /-- A method was called. -/
  | invoke (method : MethodRef) (args : List Value)
  /-- The activation ended, with a value or without. -/
  | return (value : Option Value)
deriving DecidableEq

/-- The value of a small constant. -/
def SmallConstant.value : SmallConstant → Value
  | null => .null
  | int n => .int (Int32.ofNat n.val - 1)
  | long n => .long (Int64.ofNat n.val)
  | float n => .float (Binary.ofInt n.val)
  | double n => .double (Binary.ofInt n.val)

/-- The loading opcode for constants, wide or not, takes a constant of a kind. -/
def Kind.isLoadable (k : Kind) (wide : Bool) : Bool := k.isWide = wide

namespace Action

/-- Continue with the next instruction once an action is done. -/
def thenNext (a : Action Unit) : Action Control := do
  a
  return .next

/-- The slot that an instruction works on: the one that its opcode implies, or else
the one in its operand. -/
def slotOf (i : Instruction Value) : Option (Fin 4) → Action UInt16
  | some n => return UInt16.ofNat n.val
  | none =>
    match i.operand with
    | .slot index => return index
    | _ => fail (.badOperand i.opcode)

/-- Push the immediate operand, if it lies between two bounds. -/
def pushImmediate (i : Instruction Value) (lo hi : Int) : Action Unit :=
  match i.operand with
  | .immediate n =>
    if lo ≤ n.toInt ∧ n.toInt ≤ hi then push (.int n) else fail (.badOperand i.opcode)
  | _ => fail (.badOperand i.opcode)

/-- Push the constant operand, if it is as wide as the opcode wants. -/
def pushConstant (i : Instruction Value) (wide : Bool) : Action Unit :=
  match i.operand with
  | .constant v => if v.kind.isLoadable wide then push v else fail (.badOperand i.opcode)
  | _ => fail (.badOperand i.opcode)

/-- Push the value of a slot, which has to be of the kind of the instruction. -/
def loadSlot (i : Instruction Value) (k : Kind) (slot : Option (Fin 4)) : Action Unit := do
  let index ← slotOf i slot
  let v ← ofFault ((← get).frame.locals.load index)
  if v.kind = k then push v else fail (.kindMismatch i.opcode k v.kind)

/-- Give a slot a value. -/
def setSlot (index : UInt16) (v : Value) : Action Unit := do
  let locals ← ofFault ((← get).frame.locals.store index v)
  modifyFrame fun f => { f with locals := locals }

/-- Pop a value of the kind of the instruction into a slot. -/
def storeSlot (i : Instruction Value) (k : Kind) (slot : Option (Fin 4)) : Action Unit := do
  let index ← slotOf i slot
  let x ← popAs i.opcode k
  setSlot index (.of k x)

/-- Add to the int in a slot. -/
def incrementSlot (i : Instruction Value) : Action Unit := do
  match i.operand with
  | .increment index delta =>
    let v ← ofFault ((← get).frame.locals.load index)
    match v with
    | .int a => setSlot index (.int (increment a delta))
    | v => fail (.kindMismatch i.opcode .int v.kind)
  | _ => fail (.badOperand i.opcode)

/-- The array that a reference points to. -/
def arrayAt (op : Opcode) (r : Reference) : Action ArrayObject := do
  match (← get).heap.object? r with
  | none => fail .nullReference
  | some (.array a) => return a
  | some _ => fail (.notAnArray op)

/-- The array that a reference points to, which has to be of the kind of the
instruction. -/
def arrayOf (op : Opcode) (k : ElementKind) (r : Reference) : Action ArrayObject := do
  let a ← arrayAt op r
  if a.declared = k then return a else fail (.arrayKindMismatch op a.declared)

/-- Pop an index and an array, and push the element. -/
def loadElement (op : Opcode) (k : ElementKind) : Action Unit := do
  let index ← popAs op .int
  let r ← popAs op .reference
  let a ← arrayOf op k r
  let v ← ofFault (a.load index)
  push v

/-- Pop a value, an index and an array, and replace the element. -/
def storeElement (op : Opcode) (k : ElementKind) : Action Unit := do
  let x ← popAs op k.valueKind
  let index ← popAs op .int
  let r ← popAs op .reference
  let a ← arrayOf op k r
  let a ← ofFault (a.store index (.of k.valueKind x))
  modify fun m => { m with heap := m.heap.setArray r a }

/-- Pop a length, and push a new array of zeros or nulls. -/
def pushNewArray (op : Opcode) (k : ElementKind) : Action Unit := do
  let size ← popAs op .int
  if size < 0 then fail (.negativeArraySize size)
  else
    let m ← get
    let (r, heap) := m.heap.alloc (.array (.zeroed k size.toInt.toNat))
    set { m with heap := heap }
    push (.reference r)

/-- Push a new array of the element kind in the operand, which has to be primitive. -/
def newArray (i : Instruction Value) : Action Unit :=
  match i.operand with
  | .elementKind k =>
    if k = .reference then fail (.badOperand i.opcode) else pushNewArray i.opcode k
  | _ => fail (.badOperand i.opcode)

/-- The length of an array as an int; one that is too long for an int counts as the
greatest int. -/
def lengthValue (n : Nat) : Int32 := Int32.ofNat (min n Int32.maxValue.toInt.toNat)

/-- Pop an array, and push its length. -/
def pushLength (op : Opcode) : Action Unit := do
  let r ← popAs op .reference
  let a ← arrayAt op r
  push (.int (lengthValue a.length))

/-- Pop a value and push it twice. -/
def duplicate : Action Unit := do
  let v ← pop
  push v
  push v

/-- Exchange the two topmost values. -/
def exchange : Action Unit := do
  let b ← pop
  let a ← pop
  push b
  push a

/-- Pop two operands of a kind, the second one first, and push the result of an
operation that may fail. -/
def binary (op : Opcode) (k target : Kind)
    (f : k.Carrier → k.Carrier → Except Fault target.Carrier) : Action Unit := do
  let b ← popAs op k
  let a ← popAs op k
  pushAs target (← ofFault (f a b))

/-- Pop an operand and push the result of an operation. -/
def unary (op : Opcode) (k target : Kind) (f : k.Carrier → target.Carrier) : Action Unit := do
  let a ← popAs op k
  pushAs target (f a)

/-- Pop an amount and a number, and push the shifted number. -/
def shifted (op : Opcode) (d : Shift) (n : Integral) : Action Unit := do
  let amount ← popAs op .int
  let a ← popAs op n.kind
  pushAs n.kind (d.apply n a amount)

/-- The distance in the operand of a branch. -/
def offsetOf (i : Instruction Value) : Action Int16 :=
  match i.operand with
  | .branch offset => return offset
  | _ => fail (.badOperand i.opcode)

/-- Branch if a condition holds. -/
def branchIf (taken : Bool) (offset : Int16) : Action Control := do
  if taken then return .branch (← get).frame.pc offset else return .next

/-- Pop an int, and branch if it compares to zero as a condition says. -/
def branchZero (i : Instruction Value) (c : Condition) : Action Control := do
  let offset ← offsetOf i
  let a ← popAs i.opcode .int
  branchIf (c.tests a) offset

/-- Pop two ints, and branch if they compare as a condition says. -/
def branchInt (i : Instruction Value) (c : Condition) : Action Control := do
  let offset ← offsetOf i
  let b ← popAs i.opcode .int
  let a ← popAs i.opcode .int
  branchIf (c.compares a b) offset

/-- Pop two references, and branch if they are identical, or if they are not. -/
def branchSame (i : Instruction Value) (expected : Bool) : Action Control := do
  let offset ← offsetOf i
  let b ← popAs i.opcode .reference
  let a ← popAs i.opcode .reference
  branchIf (decide (a = b) == expected) offset

/-- Pop a reference, and branch if it is null, or if it is not. -/
def branchNull (i : Instruction Value) (expected : Bool) : Action Control := do
  let offset ← offsetOf i
  let a ← popAs i.opcode .reference
  branchIf (decide (a = .null) == expected) offset

/-- Push a static field, which has to be of the kind in the operand. -/
def getStatic (i : Instruction Value) : Action Unit :=
  match i.operand with
  | .field f => do
    let v ← ofField ((← get).statics.get f.name)
    if v.kind = f.kind then push v else fail (.fieldKindMismatch f.name v.kind f.kind)
  | _ => fail (.badOperand i.opcode)

/-- Pop a value of the kind in the operand into a static field. -/
def putStatic (i : Instruction Value) : Action Unit :=
  match i.operand with
  | .field f => do
    let x ← popAs i.opcode f.kind
    let statics ← ofField ((← get).statics.put f.name (.of f.kind x))
    modify fun m => { m with statics := statics }
  | _ => fail (.badOperand i.opcode)

/-- Pop arguments of given kinds, the last kind first, onto a list of arguments. -/
def popArguments (op : Opcode) : List Kind → List Value → Action (List Value)
  | [], args => return args
  | k :: kinds, args => do
    let x ← popAs op k
    popArguments op kinds (.of k x :: args)

/-- Pop the arguments of a method and call it. -/
def callMethod (i : Instruction Value) : Action Control :=
  match i.operand with
  | .method m => do
    let args ← popArguments i.opcode m.params.reverse []
    return .invoke m args
  | _ => fail (.badOperand i.opcode)

/-- Pop a value of a kind and return it. -/
def returnWith (op : Opcode) (k : Kind) : Action Control := do
  let x ← popAs op k
  return .return (some (.of k x))

/-- Do what an instruction says, without moving on. -/
def perform (i : Instruction Value) : Action Control :=
  let op := i.opcode
  match op with
  | .constant c => thenNext (push c.value)
  | .bipush => thenNext (pushImmediate i Int8.minValue.toInt Int8.maxValue.toInt)
  | .sipush => thenNext (pushImmediate i Int16.minValue.toInt Int16.maxValue.toInt)
  | .ldc | .ldcWide => thenNext (pushConstant i false)
  | .ldc2 => thenNext (pushConstant i true)
  | .load k slot => thenNext (loadSlot i k slot)
  | .store k slot => thenNext (storeSlot i k slot)
  | .arrayLoad k => thenNext (loadElement op k)
  | .arrayStore k => thenNext (storeElement op k)
  | .pop => thenNext (discard pop)
  | .dup => thenNext duplicate
  | .swap => thenNext exchange
  | .arithmetic o n => thenNext (binary op n.kind n.kind (o.apply n))
  | .negate n => thenNext (unary op n.kind n.kind n.negate)
  | .shift d n => thenNext (shifted op d n)
  | .bitwise o n => thenNext (binary op n.kind n.kind fun a b => .ok (o.apply n a b))
  | .iinc => thenNext (incrementSlot i)
  | .convert c => thenNext (unary op c.source.kind c.target.kind c.apply)
  | .compare c =>
    thenNext (binary op c.operand.kind .int fun a b => .ok (orderingValue (c.apply a b)))
  | .ifZero c => branchZero i c
  | .ifInt c => branchInt i c
  | .ifSame expected => branchSame i expected
  | .ifNull expected => branchNull i expected
  | .returnValue k => returnWith op k
  | .returnVoid => return .return none
  | .getstatic => thenNext (getStatic i)
  | .putstatic => thenNext (putStatic i)
  | .invokestatic => callMethod i
  | .newarray => thenNext (newArray i)
  | .anewarray => thenNext (pushNewArray op .reference)
  | .arraylength => thenNext (pushLength op)

/-- Execute an instruction, and move on to the next one if it completes. -/
def step (i : Instruction Value) : Action Control := do
  let control ← perform i
  modifyFrame fun f => { f with pc := f.pc + 1 }
  return control

/-- Execute instructions in order, up to the first control event. -/
def runAll : List (Instruction Value) → Action Control
  | [] => return .next
  | i :: rest => do
    match ← step i with
    | .next => runAll rest
    | control => return control

/-- Execute a block from the current instruction on, up to the first control event. -/
def run (block : Block) : Action Control := do
  runAll (block.drop (← get).frame.pc)

end Action

end StackMachine
