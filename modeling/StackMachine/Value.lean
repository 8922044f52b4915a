import StackMachine.Binary.Basic
import StackMachine.Kind

/-!
# Values

A value is a number of one of the four numeric kinds or a reference. References
are null or the address of an object; two references are the same when their
addresses are, whatever the objects hold. Equality of values is equality of bits,
so it tells `0.0` from `-0.0` and one NaN from another.
-/

namespace StackMachine

/-- A reference to an object on the heap, or to none. -/
inductive Reference where
  | null
  | to (address : Nat)
deriving DecidableEq, Repr

/-- The values of a kind. -/
@[reducible] def Kind.Carrier : Kind → Type
  | .int => Int32
  | .long => Int64
  | .float => Single
  | .double => Double
  | .reference => Reference

/-- The values of a numeric kind. -/
abbrev Numeric.Carrier (n : Numeric) : Type := n.kind.Carrier

/-- The values of an integral kind. -/
abbrev Integral.Carrier (n : Integral) : Type := n.kind.Carrier

/-- A value on the stack, in a local slot or in a static field. -/
inductive Value where
  | int (n : Int32)
  | long (n : Int64)
  | float (x : Single)
  | double (x : Double)
  | reference (r : Reference)
deriving DecidableEq

namespace Value

/-- The null reference as a value. -/
def null : Value := reference .null

/-- The kind of a value. -/
def kind : Value → Kind
  | int _ => .int
  | long _ => .long
  | float _ => .float
  | double _ => .double
  | reference _ => .reference

/-- A value of a given kind. -/
def of : (k : Kind) → k.Carrier → Value
  | .int => int
  | .long => long
  | .float => float
  | .double => double
  | .reference => reference

/-- What a value of a given kind holds. -/
def as? : (k : Kind) → Value → Option k.Carrier
  | .int, int n => some n
  | .long, long n => some n
  | .float, float x => some x
  | .double, double x => some x
  | .reference, reference r => some r
  | _, _ => none

@[simp] theorem kind_of (k : Kind) (x : k.Carrier) : (of k x).kind = k := by cases k <;> rfl

@[simp] theorem as?_of (k : Kind) (x : k.Carrier) : as? k (of k x) = some x := by
  cases k <;> rfl

/-- A value is taken for one of a kind exactly if it is made of one. -/
theorem as?_eq_some_iff {k : Kind} {v : Value} {x : k.Carrier} :
    as? k v = some x ↔ v = of k x := by
  constructor
  · cases k <;> cases v <;> simp [as?, of]
  · rintro rfl
    exact as?_of k x

theorem isSome_as?_iff {k : Kind} {v : Value} : (as? k v).isSome ↔ v.kind = k := by
  cases k <;> cases v <;> simp [as?, kind]

/-- A value of a kind holds something of that kind. -/
theorem exists_of_kind {k : Kind} {v : Value} (h : v.kind = k) : ∃ x, v = of k x := by
  obtain ⟨x, hx⟩ := Option.isSome_iff_exists.1 (isSome_as?_iff.2 h)
  exact ⟨x, as?_eq_some_iff.1 hx⟩

end Value

end StackMachine
