import StackMachine.Fault
import StackMachine.Value

/-!
# Frames

The state of one activation of a method: its operand stack, its local slots, the
index of the instruction to execute next, and the depth that the stack may reach.
-/

namespace StackMachine

/-- The local slots of an activation. Any slot holds any kind of value. -/
structure Locals where
  /-- The value of every slot. -/
  slots : Array Value
deriving DecidableEq

namespace Locals

/-- Slots that hold the int zero. -/
def zeroed (length : Nat) : Locals := ⟨Array.replicate length (.int 0)⟩

/-- The number of slots. -/
def length (l : Locals) : Nat := l.slots.size

/-- The value of a slot. -/
def load (l : Locals) (index : UInt16) : Except Fault Value :=
  match l.slots[index.toNat]? with
  | some v => .ok v
  | none => .error (.slotIndex index l.length)

/-- The slots with the value of one replaced. -/
def store (l : Locals) (index : UInt16) (v : Value) : Except Fault Locals :=
  if h : index.toNat < l.slots.size then .ok ⟨l.slots.set index.toNat v h⟩
  else .error (.slotIndex index l.length)

@[simp] theorem length_store {l l' : Locals} {index : UInt16} {v : Value}
    (h : l.store index v = .ok l') : l'.length = l.length := by
  unfold store at h
  split at h
  · cases h
    simp [length]
  · simp at h

/-- A slot that has been stored into holds the value, and the others what they held. -/
theorem load_store {l l' : Locals} {index : UInt16} {v : Value} (h : l.store index v = .ok l')
    (other : UInt16) : l'.load other = if other = index then .ok v else l.load other := by
  unfold store at h
  split at h
  · rename_i hi
    cases h
    by_cases ho : other = index
    · subst ho
      simp [load, hi]
    · have : index.toNat ≠ other.toNat := fun he => ho (UInt16.toNat_inj.1 he).symm
      simp [load, length, ho, this]
  · simp at h

/-- The least number of slots that an activation has. -/
def minimum : Nat := 8

/-- The slots of an activation: its arguments from the first slot on, and zeros up to
the least number of slots. -/
def ofArguments (args : List Value) : Locals :=
  ⟨(args ++ List.replicate (minimum - args.length) (Value.int 0)).toArray⟩

end Locals

/-- The state of one activation. -/
structure Frame where
  /-- The operand stack, its top first. -/
  stack : List Value
  /-- The local slots. -/
  locals : Locals
  /-- The index of the next instruction. -/
  pc : Nat
  /-- The depth that the stack may reach. -/
  maxStack : Nat
deriving DecidableEq

namespace Frame

/-- The depth that a stack may reach unless another is asked for. -/
def defaultMaxStack : Nat := 4096

/-- A frame at the first instruction, with an empty stack. -/
def new (locals : Locals) (maxStack : Nat) : Frame := ⟨[], locals, 0, maxStack⟩

end Frame

end StackMachine
