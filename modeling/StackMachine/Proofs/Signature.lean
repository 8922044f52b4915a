import StackMachine.Step

/-!
# Signatures

What an instruction takes off the operand stack and what it leaves there, by kinds
alone. The signature is read off the opcode and the operand, and an instruction
whose operand does not fit its opcode has none. `pop`, `dup` and `swap` take
values of any kind, so what they leave depends on what they have taken.

Besides, an instruction may need a slot or a static field, and it may lead elsewhere
than to the next instruction. Both are read off in the same way.
-/

namespace StackMachine

/-- The kinds of the values that an instruction takes, the topmost first. A missing
kind stands for any. -/
abbrev Demand := List (Option Kind)

namespace Demand

/-- The kinds that are taken off a stack of kinds and those that stay, if the topmost
kinds are as demanded. -/
def take? : Demand → List Kind → Option (List Kind × List Kind)
  | [], ks => some ([], ks)
  | _ :: _, [] => none
  | o :: d, k :: ks =>
    if o.all (· = k) then (take? d ks).map fun r => (k :: r.1, r.2) else none

end Demand

/-- The kinds that an instruction takes and leaves. -/
structure Signature where
  /-- What is taken, the topmost first. -/
  takes : Demand
  /-- What is left in the place of taken values, both the topmost first. -/
  gives : List Kind → List Kind

namespace Signature

/-- Given kinds are taken, and others left in their place. -/
def fixed (takes gives : List Kind) : Signature := ⟨takes.map some, fun _ => gives⟩

end Signature

/-- What an instruction needs besides the values that it takes. -/
inductive Need where
  | nothing
  /-- A slot that holds a value of a kind. -/
  | slot (index : UInt16) (k : Kind)
  /-- A slot, which holds a value of a kind afterwards. -/
  | target (index : UInt16) (k : Kind)
  /-- A static field of the kind that the instruction names. -/
  | field (f : FieldRef)

/-- Where an instruction may lead. -/
inductive Flow where
  /-- To the next instruction only. -/
  | next
  /-- To the next instruction or to one at a distance. -/
  | branch (offset : Int16)
  /-- Into a method and then to the next instruction. -/
  | call (m : MethodRef)
  /-- Back to the caller, with a value of a kind or without one. -/
  | return (k : Option Kind)

namespace Instruction

/-- The slot of a load or a store, if the operand names one where the opcode does not. -/
def slot? (i : Instruction Value) : Option (Fin 4) → Option UInt16
  | some n => some (UInt16.ofNat n.val)
  | none =>
    match i.operand with
    | .slot index => some index
    | _ => none

/-- The immediate operand, if it lies between two bounds. -/
def immediate? (i : Instruction Value) (lo hi : Int) : Option Int32 :=
  match i.operand with
  | .immediate n => if lo ≤ n.toInt ∧ n.toInt ≤ hi then some n else none
  | _ => none

/-- The constant operand, if it is as wide as the opcode wants. -/
def constant? (i : Instruction Value) (wide : Bool) : Option Value :=
  match i.operand with
  | .constant v => if v.kind.isWide = wide then some v else none
  | _ => none

/-- The distance of a branch. -/
def offset? (i : Instruction Value) : Option Int16 :=
  match i.operand with
  | .branch offset => some offset
  | _ => none

/-- The static field that the operand names. -/
def field? (i : Instruction Value) : Option FieldRef :=
  match i.operand with
  | .field f => some f
  | _ => none

/-- The static method that the operand names. -/
def method? (i : Instruction Value) : Option MethodRef :=
  match i.operand with
  | .method m => some m
  | _ => none

/-- The primitive element kind that the operand names. -/
def primitive? (i : Instruction Value) : Option ElementKind :=
  match i.operand with
  | .elementKind k => if k = .reference then none else some k
  | _ => none

/-- The signature of an instruction, unless its operand does not fit. The result of a
call is left by the call as a whole, not by the instruction. -/
def signature? (i : Instruction Value) : Option Signature :=
  match i.opcode with
  | .constant c => some (.fixed [] [c.value.kind])
  | .bipush => (i.immediate? (-128) 127).map fun _ => .fixed [] [.int]
  | .sipush => (i.immediate? (-32768) 32767).map fun _ => .fixed [] [.int]
  | .ldc | .ldcWide => (i.constant? false).map fun v => .fixed [] [v.kind]
  | .ldc2 => (i.constant? true).map fun v => .fixed [] [v.kind]
  | .load k slot => (i.slot? slot).map fun _ => .fixed [] [k]
  | .store k slot => (i.slot? slot).map fun _ => .fixed [k] []
  | .arrayLoad k => some (.fixed [.int, .reference] [k.valueKind])
  | .arrayStore k => some (.fixed [k.valueKind, .int, .reference] [])
  | .pop => some ⟨[none], fun _ => []⟩
  | .dup => some ⟨[none], fun ks => ks ++ ks⟩
  | .swap => some ⟨[none, none], List.reverse⟩
  | .arithmetic _ n => some (.fixed [n.kind, n.kind] [n.kind])
  | .negate n => some (.fixed [n.kind] [n.kind])
  | .shift _ n => some (.fixed [.int, n.kind] [n.kind])
  | .bitwise _ n => some (.fixed [n.kind, n.kind] [n.kind])
  | .iinc =>
    match i.operand with
    | .increment .. => some (.fixed [] [])
    | _ => none
  | .convert c => some (.fixed [c.source.kind] [c.target.kind])
  | .compare c => some (.fixed [c.operand.kind, c.operand.kind] [.int])
  | .ifZero _ => i.offset?.map fun _ => .fixed [.int] []
  | .ifInt _ => i.offset?.map fun _ => .fixed [.int, .int] []
  | .ifSame _ => i.offset?.map fun _ => .fixed [.reference, .reference] []
  | .ifNull _ => i.offset?.map fun _ => .fixed [.reference] []
  | .returnValue k => some (.fixed [k] [])
  | .returnVoid => some (.fixed [] [])
  | .getstatic => i.field?.map fun f => .fixed [] [f.kind]
  | .putstatic => i.field?.map fun f => .fixed [f.kind] []
  | .invokestatic => i.method?.map fun m => .fixed m.params.reverse []
  | .newarray => i.primitive?.map fun _ => .fixed [.int] [.reference]
  | .anewarray => some (.fixed [.int] [.reference])
  | .arraylength => some (.fixed [.reference] [.int])

/-- What an instruction whose operand fits needs besides the values that it takes. -/
def need (i : Instruction Value) : Need :=
  match i.opcode with
  | .load k slot => (i.slot? slot).elim .nothing (.slot · k)
  | .store k slot => (i.slot? slot).elim .nothing (.target · k)
  | .iinc =>
    match i.operand with
    | .increment index _ => .slot index .int
    | _ => .nothing
  | .getstatic | .putstatic => i.field?.elim .nothing .field
  | _ => .nothing

/-- Where an instruction whose operand fits may lead. -/
def flow (i : Instruction Value) : Flow :=
  match i.opcode with
  | .ifZero _ | .ifInt _ | .ifSame _ | .ifNull _ => i.offset?.elim .next .branch
  | .invokestatic => i.method?.elim .next .call
  | .returnValue k => .return (some k)
  | .returnVoid => .return none
  | _ => .next

/-- The number of values that an instruction takes off the stack. -/
def arity (i : Instruction Value) : Nat := (i.signature?.map (·.takes.length)).getD 0

end Instruction

end StackMachine
