import StackMachine.Kind
import StackMachine.Text.Numeral

/-!
# Faults

The ways in which an operation on numbers, slots or array elements can fail,
whatever instruction asked for it.
-/

namespace StackMachine

/-- A failed operation. -/
inductive Fault where
  /-- An integer was divided by zero. -/
  | divideByZero
  /-- An array has no element at an index. -/
  | arrayIndex (index : Int32) (length : Nat)
  /-- There is no local slot with an index. -/
  | slotIndex (index : UInt16) (length : Nat)
  /-- A value of the wrong kind was stored into an array. -/
  | arrayStore (declared : ElementKind) (found : Kind)
deriving DecidableEq, Repr

/-- The wording of a fault. -/
def Fault.message : Fault → String
  | divideByZero => "arithmetic fault: divide by zero"
  | arrayIndex i n =>
    "array index " ++ Numeral.intText i.toInt ++ " out of range (length " ++
      Numeral.natText n ++ ")"
  | slotIndex i n =>
    "local slot " ++ Numeral.natText i.toNat ++ " out of range (length " ++
      Numeral.natText n ++ ")"
  | arrayStore declared found =>
    "cannot store " ++ found.name ++ " into " ++ declared.name ++ " array"

end StackMachine
