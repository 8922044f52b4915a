import Std.Data.ExtTreeMap
import StackMachine.Fault
import StackMachine.Value

/-!
# Objects and the heap

An object is an array, a string or a class literal; the heap keeps objects by
address and only grows. An array has a declared element kind and a storage. They
agree when an array is created, and every access is judged by the storage's
bounds and by the kinds of both.
-/

namespace StackMachine

namespace ElementKind

/-- The elements of a kind, as an array stores them. -/
@[reducible] def Carrier : ElementKind → Type
  | byte => Int8
  | short => Int16
  | char => UInt16
  | int => Int32
  | long => Int64
  | float => Single
  | double => Double
  | reference => Reference

/-- The element of a new array. -/
def zero : (k : ElementKind) → k.Carrier
  | byte => 0
  | short => 0
  | char => 0
  | int => 0
  | long => 0
  | float => Binary.zero false
  | double => Binary.zero false
  | reference => .null

/-- The value that an element has on the stack: narrow integers are extended, chars
with zeros and the others with their sign. -/
def widen : (k : ElementKind) → k.Carrier → Value
  | byte, n => .int n.toInt32
  | short, n => .int n.toInt32
  | char, n => .int n.toUInt32.toInt32
  | int, n => .int n
  | long, n => .long n
  | float, x => .float x
  | double, x => .double x
  | reference, r => .reference r

/-- The element that a value becomes in storage: ints lose the bits that do not fit.
A value of another kind than the elements' has none. -/
def narrow? : (k : ElementKind) → Value → Option k.Carrier
  | byte, .int n => some n.toInt8
  | short, .int n => some n.toInt16
  | char, .int n => some n.toUInt32.toUInt16
  | int, .int n => some n
  | long, .long n => some n
  | float, .float x => some x
  | double, .double x => some x
  | reference, .reference r => some r
  | _, _ => none

@[simp] theorem kind_widen (k : ElementKind) (x : k.Carrier) :
    (k.widen x).kind = k.valueKind := by
  cases k <;> rfl

/-- An element takes exactly the values of its kind. -/
theorem isSome_narrow?_iff {k : ElementKind} {v : Value} :
    (k.narrow? v).isSome ↔ v.kind = k.valueKind := by
  cases k <;> cases v <;> simp [narrow?, Value.kind, valueKind]

end ElementKind

/-- The elements of an array, all of one kind. Only the elements written since the array
was created are kept, so that an array costs as much as what is in it. -/
structure Storage where
  /-- The kind of the elements. -/
  kind : ElementKind
  /-- The number of elements. -/
  length : Nat
  /-- The elements that have been written; the others are zeros or nulls. -/
  written : Std.ExtTreeMap (Fin length) kind.Carrier

namespace Storage

/-- A storage of zeros or nulls. -/
def zeroed (kind : ElementKind) (length : Nat) : Storage := ⟨kind, length, ∅⟩

/-- The storage of the listed elements. -/
def ofList (kind : ElementKind) (items : List kind.Carrier) : Storage :=
  ⟨kind, items.length, .ofList ((List.finRange items.length).map fun i => (i, items[i]))⟩

/-- The element at a position. -/
def get (s : Storage) (i : Fin s.length) : s.kind.Carrier := s.written.getD i s.kind.zero

/-- The storage with the element at a position replaced. -/
def set (s : Storage) (i : Fin s.length) (x : s.kind.Carrier) : Storage :=
  { s with written := s.written.insert i x }

@[simp] theorem get_zeroed (k : ElementKind) (n : Nat) (i : Fin n) :
    (zeroed k n).get i = k.zero :=
  Std.ExtTreeMap.getD_empty

/-- An element that has been replaced is the new one, and the others are what they were. -/
theorem get_set (s : Storage) (i j : Fin s.length) (x : s.kind.Carrier) :
    (s.set i x).get j = if i = j then x else s.get j := by
  change (s.written.insert i x).getD j s.kind.zero = _
  simp [Std.ExtTreeMap.getD_insert, get]

end Storage

/-- An array object. -/
structure ArrayObject where
  /-- The element kind that the array was created with. -/
  declared : ElementKind
  /-- The elements. -/
  storage : Storage

namespace ArrayObject

/-- A new array of zeros or nulls. -/
def zeroed (kind : ElementKind) (length : Nat) : ArrayObject := ⟨kind, .zeroed kind length⟩

/-- The array whose declared kind is that of its storage. -/
def ofStorage (s : Storage) : ArrayObject := ⟨s.kind, s⟩

/-- The number of elements. -/
def length (a : ArrayObject) : Nat := a.storage.length

/-- The position that an index denotes, unless it is negative or too large. -/
def position (a : ArrayObject) (index : Int32) : Except Fault (Fin a.length) :=
  if h : 0 ≤ index.toInt ∧ index.toInt < a.length then .ok ⟨index.toInt.toNat, by omega⟩
  else .error (.arrayIndex index a.length)

/-- The value of the element at a position. -/
def get (a : ArrayObject) (i : Fin a.length) : Value := a.storage.kind.widen (a.storage.get i)

/-- The value of the element at an index. -/
def load (a : ArrayObject) (index : Int32) : Except Fault Value :=
  (a.position index).map a.get

/-- The array with the element at an index replaced. The index is checked before the
kind of the value. -/
def store (a : ArrayObject) (index : Int32) (v : Value) : Except Fault ArrayObject := do
  let i ← a.position index
  match a.storage.kind.narrow? v with
  | some x => return { a with storage := a.storage.set i x }
  | none => throw (.arrayStore a.declared v.kind)

/-- The array with other elements, of any number and kind, under the same declaration. -/
def replace (a : ArrayObject) (s : Storage) : ArrayObject := { a with storage := s }

end ArrayObject

/-- An object on the heap. -/
inductive Object where
  | array (a : ArrayObject)
  | string (s : String)
  | className (name : String)

/-- The objects that references point to, by address. -/
structure Heap where
  /-- The object at every address in use. -/
  objects : Array Object

namespace Heap

/-- The heap without objects. -/
def empty : Heap := ⟨#[]⟩

/-- The object that a reference points to. -/
def object? (h : Heap) : Reference → Option Object
  | .null => none
  | .to address => h.objects[address]?

/-- Add an object at a fresh address. -/
def alloc (h : Heap) (o : Object) : Reference × Heap :=
  (.to h.objects.size, ⟨h.objects.push o⟩)

/-- The heap with the array at a reference replaced. -/
def setArray (h : Heap) : Reference → ArrayObject → Heap
  | .null, _ => h
  | .to address, a => ⟨h.objects.setIfInBounds address (.array a)⟩

/-- The array that a reference points to. -/
def array? (h : Heap) (r : Reference) : Option ArrayObject :=
  match h.object? r with
  | some (.array a) => some a
  | _ => none

@[simp] theorem object?_alloc (h : Heap) (o : Object) :
    (h.alloc o).2.object? (h.alloc o).1 = some o := by
  simp [alloc, object?]

end Heap

end StackMachine
