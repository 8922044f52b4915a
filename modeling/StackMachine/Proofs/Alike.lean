import Mathlib.Data.List.Forall2
import StackMachine.Proofs.Footprint

/-!
# States that are alike

Two states are alike when they differ only in which NaN a NaN is, and in what strings and
class literals hold. This file says what it is for values, objects, slots, static fields,
heaps and machines to be alike, and shows that everything an instruction reads or computes
comes out alike on both sides: the same number unless it is a NaN, the same reference, the
same answer to a comparison, the same fault.

Numbers that are alike have not only results that are alike: except for negation, which keeps
what a NaN is, every operation on numbers gives the same result on both sides.
-/

namespace StackMachine

/-- Two binary numbers are the same, or both are NaNs. -/
def Binary.Alike {f : Format} (x y : Binary f) : Prop := x = y ∨ x.isNaN = true ∧ y.isNaN = true

/-- Two values are the same, except that NaNs may differ. -/
inductive Value.Alike : Value → Value → Prop where
  | int (n : Int32) : Alike (.int n) (.int n)
  | long (n : Int64) : Alike (.long n) (.long n)
  | float {x y : Single} (h : x.Alike y) : Alike (.float x) (.float y)
  | double {x y : Double} (h : x.Alike y) : Alike (.double x) (.double y)
  | reference (r : Reference) : Alike (.reference r) (.reference r)

/-- Two arrays are of the same kinds and the same length, and their elements are alike. -/
structure ArrayObject.Alike (a a' : ArrayObject) : Prop where
  declared : a'.declared = a.declared
  kind : a'.storage.kind = a.storage.kind
  length : a'.length = a.length
  elements : ∀ n, Option.Rel Value.Alike (a.element? n) (a'.element? n)

/-- The array that an object is, if it is one. -/
def Object.array? : Object → Option ArrayObject
  | array a => some a
  | string _ | className _ => none

/-- Two objects are arrays that are alike, or neither is an array. -/
def Object.Alike (o o' : Object) : Prop := Option.Rel ArrayObject.Alike o.array? o'.array?

/-- The same references lead to objects, which are alike. -/
def Heap.Alike (h h' : Heap) : Prop := ∀ r, Option.Rel Object.Alike (h.object? r) (h'.object? r)

/-- There are the same static fields, and their values are alike. -/
def Statics.Alike (s s' : Statics) : Prop :=
  ∀ name, Option.Rel Value.Alike (s.find? name) (s'.find? name)

/-- There are the same slots, and their values are alike. -/
def Locals.Alike (l l' : Locals) : Prop :=
  ∀ n : Nat, Option.Rel Value.Alike l.slots[n]? l'.slots[n]?

/-- Two frames are at the same instruction, and their stacks and slots are alike. -/
structure Frame.Alike (f f' : Frame) : Prop where
  stack : List.Forall₂ Value.Alike f.stack f'.stack
  locals : f.locals.Alike f'.locals
  pc : f'.pc = f.pc
  maxStack : f'.maxStack = f.maxStack

/-- Two stores have slots, static fields and objects that are alike. -/
structure Store.Alike (s s' : Store) : Prop where
  locals : s.locals.Alike s'.locals
  statics : s.statics.Alike s'.statics
  heap : s.heap.Alike s'.heap

/-- Two machines differ only in which NaNs their NaNs are and in what strings and class literals
hold. -/
structure Machine.Alike (m m' : Machine) : Prop where
  frame : m.frame.Alike m'.frame
  statics : m.statics.Alike m'.statics
  heap : m.heap.Alike m'.heap

/-- Two computations fail for the same reason, or have results that are in a relation. -/
inductive Agree {ε α β : Type} (R : α → β → Prop) : Except ε α → Except ε β → Prop where
  | ok {a : α} {b : β} (h : R a b) : Agree R (.ok a) (.ok b)
  | error (e : ε) : Agree R (.error e) (.error e)

namespace Agree

variable {ε δ α β γ κ : Type} {R : α → β → Prop} {S : γ → κ → Prop} {x : Except ε α}
  {y : Except ε β}

/-- Where both have results, the computations go on with results that are in the relation. -/
theorem bind_of_ok {f : α → Except ε γ} {g : β → Except ε κ} (h : Agree R x y)
    (hfg : ∀ a b, x = .ok a → R a b → Agree S (f a) (g b)) : Agree S (x >>= f) (y >>= g) := by
  cases h with
  | ok h => exact hfg _ _ rfl h
  | error e => exact .error e

theorem bind {f : α → Except ε γ} {g : β → Except ε κ} (h : Agree R x y)
    (hfg : ∀ a b, R a b → Agree S (f a) (g b)) : Agree S (x >>= f) (y >>= g) :=
  h.bind_of_ok fun a b _ => hfg a b

/-- Two computations that begin with the same one. -/
theorem bind_same {f : α → Except ε γ} {g : α → Except ε κ} (x : Except ε α)
    (hfg : ∀ a, Agree S (f a) (g a)) : Agree S (x >>= f) (x >>= g) := by
  cases x with
  | ok a => exact hfg a
  | error e => exact .error e

/-- Failures that are the same are reported as the same. -/
theorem mapError (h : Agree R x y) (f : ε → δ) : Agree R (x.mapError f) (y.mapError f) := by
  cases h with
  | ok h => exact .ok h
  | error e => exact .error (f e)

end Agree

/-! ### Numbers -/

namespace Binary.Alike

variable {f : Format} {x x' y y' : Binary f} {α : Type}

theorem refl (x : Binary f) : x.Alike x := .inl rfl

/-- A function that gives all NaNs the same result does not tell numbers that are alike. -/
theorem map_eq {op : Binary f → α} {z : α} (hx : x.Alike x') (h : ∀ x, x.isNaN = true → op x = z) :
    op x = op x' := by
  rcases hx with rfl | ⟨hnan, hnan'⟩
  · rfl
  · rw [h x hnan, h x' hnan']

/-- The same of two arguments, each of which can be a NaN. -/
theorem map₂_eq {op : Binary f → Binary f → α} {z : α} (hx : x.Alike x') (hy : y.Alike y')
    (h : ∀ x y, (x.isNaN || y.isNaN) = true → op x y = z) : op x y = op x' y' :=
  calc op x y
    _ = op x' y := hx.map_eq fun x hnan => h x y (by rw [hnan, Bool.true_or])
    _ = op x' y' := hy.map_eq fun y hnan => h x' y (by rw [hnan, Bool.or_true])

/-- Negation makes no NaN of another number. -/
theorem neg (hx : x.Alike x') : x.neg.Alike x'.neg := by
  rcases hx with rfl | hnan
  · exact .refl _
  · exact .inr hnan

/-- Arithmetic gives the same result on both sides, since a NaN gives the one NaN that it makes. -/
theorem onBinary (o : Arithmetic) (hx : x.Alike x') (hy : y.Alike y') :
    o.onBinary x y = o.onBinary x' y' := by
  refine hx.map₂_eq (z := nan) hy fun x y hnan => ?_
  cases o with
  | add => exact if_pos hnan
  | sub => exact if_pos hnan
  | mul => exact if_pos hnan
  | div => exact if_pos hnan
  | rem =>
    refine if_pos ?_
    rw [hnan]
    rfl

/-- A comparison with a NaN is decided by the instruction, not by the NaN. -/
theorem compare (u : Unordered) (hx : x.Alike x') (hy : y.Alike y') :
    ThreeWay.onBinary u x y = ThreeWay.onBinary u x' y' := by
  refine hx.map₂_eq (z := u.ordering) hy fun x y hnan => ?_
  rw [ThreeWay.onBinary, compare?, if_pos hnan]
  rfl

theorem saturate (lo hi : Int) (hx : x.Alike x') : x.saturate lo hi = x'.saturate lo hi :=
  hx.map_eq fun _ hnan => if_pos hnan

/-- All NaNs become the same NaN of the other format. -/
theorem convert {g : Format} (hx : x.Alike x') : (x.convert : Binary g) = x'.convert :=
  hx.map_eq fun _ hnan => if_pos hnan

end Binary.Alike

/-! ### Values -/

/-- Two numbers or references of a kind are alike as values. -/
def Kind.Alike (k : Kind) (x y : k.Carrier) : Prop := (Value.of k x).Alike (Value.of k y)

theorem Value.Alike.refl (v : Value) : v.Alike v := by
  cases v with
  | int n => exact .int n
  | long n => exact .long n
  | float x => exact .float (.refl x)
  | double x => exact .double (.refl x)
  | reference r => exact .reference r

/-- Values that are alike are of one kind. -/
theorem Value.Alike.kind {v v' : Value} (h : v.Alike v') : v'.kind = v.kind := by
  cases h <;> rfl

/-- Values that are alike are taken for the same kinds. -/
theorem Value.Alike.as? {v v' : Value} (h : v.Alike v') (k : Kind) :
    Option.Rel k.Alike (v.as? k) (v'.as? k) := by
  cases h <;> cases k <;> first | exact .none | skip
  · exact .some (.int _)
  · exact .some (.long _)
  · exact .some (.float ‹_›)
  · exact .some (.double ‹_›)
  · exact .some (.reference _)

namespace Kind.Alike

theorem refl (k : Kind) (x : k.Carrier) : k.Alike x x := Value.Alike.refl _

theorem int {a b : Int32} (h : Kind.int.Alike a b) : a = b := by
  cases h
  rfl

theorem long {a b : Int64} (h : Kind.long.Alike a b) : a = b := by
  cases h
  rfl

/-- Floats that are alike may be different NaNs. -/
theorem float {x y : Single} (h : Kind.float.Alike x y) : x.Alike y := by
  cases h
  assumption

/-- Doubles that are alike may be different NaNs. -/
theorem double {x y : Double} (h : Kind.double.Alike x y) : x.Alike y := by
  cases h
  assumption

theorem reference {r r' : Reference} (h : Kind.reference.Alike r r') : r = r' := by
  cases h
  rfl

end Kind.Alike

section

variable {n : Numeric} {a a' b b' : n.Carrier}

/-- An operation on numbers that are alike gives the same result or the same fault. -/
theorem Arithmetic.apply_alike (o : Arithmetic) (ha : n.kind.Alike a a') (hb : n.kind.Alike b b') :
    o.apply n a b = o.apply n a' b' := by
  cases n with
  | int => rw [ha.int, hb.int]
  | long => rw [ha.long, hb.long]
  | float => exact congrArg Except.ok (ha.float.onBinary o hb.float)
  | double => exact congrArg Except.ok (ha.double.onBinary o hb.double)

/-- The opposites of numbers that are alike are alike, and no more than that. -/
theorem Numeric.negate_alike (ha : n.kind.Alike a a') :
    n.kind.Alike (n.negate a) (n.negate a') := by
  cases n with
  | int => exact ha.int ▸ .refl ..
  | long => exact ha.long ▸ .refl ..
  | float => exact Value.Alike.float ha.float.neg
  | double => exact Value.Alike.double ha.double.neg

end

/-- Integers that are alike are the same. -/
theorem Integral.eq_of_alike {n : Integral} {a a' : n.Carrier} (h : n.kind.Alike a a') :
    a = a' := by
  cases n with
  | int => exact h.int
  | long => exact h.long

/-- Numbers that are alike compare in the same way. -/
theorem ThreeWay.apply_alike (c : ThreeWay) {a a' b b' : c.operand.Carrier}
    (ha : c.operand.kind.Alike a a') (hb : c.operand.kind.Alike b b') :
    c.apply a b = c.apply a' b' := by
  cases c with
  | long => rw [ha.long, hb.long]
  | float u => exact ha.float.compare u hb.float
  | double u => exact ha.double.compare u hb.double

/-- Numbers that are alike are converted to the same number. -/
theorem Conversion.apply_alike (c : Conversion) {a a' : c.source.Carrier}
    (ha : c.source.kind.Alike a a') : c.apply a = c.apply a' := by
  cases c with
  | i2l | i2f | i2d | i2b | i2c | i2s => rw [ha.int]
  | l2i | l2f | l2d => rw [ha.long]
  | f2i => exact congrArg Int32.ofInt (ha.float.saturate _ _)
  | f2l => exact congrArg Int64.ofInt (ha.float.saturate _ _)
  | f2d => exact ha.float.convert
  | d2i => exact congrArg Int32.ofInt (ha.double.saturate _ _)
  | d2l => exact congrArg Int64.ofInt (ha.double.saturate _ _)
  | d2f => exact ha.double.convert

/-! ### Slots, static fields and objects -/

/-- Sequences with related values at the same positions are equally long. -/
theorem size_eq_of_rel {α β : Type} {R : α → β → Prop} {xs : Array α} {ys : Array β}
    (h : ∀ n : Nat, Option.Rel R xs[n]? ys[n]?) : ys.size = xs.size := by
  have hnone : ∀ n, xs.size ≤ n ↔ ys.size ≤ n := fun n => by
    rw [← Array.getElem?_eq_none_iff, ← Array.getElem?_eq_none_iff]
    have hn := h n
    generalize xs[n]? = x at hn ⊢
    generalize ys[n]? = y at hn ⊢
    cases hn <;> simp
  exact Nat.le_antisymm ((hnone _).1 (Nat.le_refl _)) ((hnone _).2 (Nat.le_refl _))

namespace Locals.Alike

variable {l l' : Locals} {v v' : Value}

/-- There are as many slots on one side as on the other. -/
theorem length (hl : l.Alike l') : l'.length = l.length := size_eq_of_rel hl

/-- A slot holds values that are alike, or there is none on either side. -/
theorem load (hl : l.Alike l') (index : UInt16) :
    Agree Value.Alike (l.load index) (l'.load index) := by
  have hslot := hl index.toNat
  unfold Locals.load
  rw [hl.length]
  generalize l.slots[index.toNat]? = x at hslot ⊢
  generalize l'.slots[index.toNat]? = x' at hslot ⊢
  cases hslot with
  | some h => exact .ok h
  | none => exact .error _

/-- A slot that takes a value on one side takes one that is alike on the other. -/
theorem store (hl : l.Alike l') (index : UInt16) (hv : v.Alike v') :
    Agree Locals.Alike (l.store index v) (l'.store index v') := by
  have hsize : l'.slots.size = l.slots.size := hl.length
  by_cases hi : index.toNat < l.slots.size
  · have hi' : index.toNat < l'.slots.size := hsize ▸ hi
    rw [Locals.store, Locals.store, dif_pos hi, dif_pos hi']
    refine .ok fun n => ?_
    change Option.Rel Value.Alike (l.slots.set index.toNat v hi)[n]?
      (l'.slots.set index.toNat v' hi')[n]?
    rw [Array.getElem?_set, Array.getElem?_set]
    split
    · exact .some hv
    · exact hl n
  · have hi' : ¬ index.toNat < l'.slots.size := hsize ▸ hi
    rw [Locals.store, Locals.store, dif_neg hi, dif_neg hi', hl.length]
    exact .error _

end Locals.Alike

/-- A field takes every value of its kind. -/
theorem Statics.exists_put {s : Statics} {name : String} {v w : Value}
    (hw : s.find? name = some w) (hk : w.kind = v.kind) : ∃ t, s.put name v = .ok t := by
  simp only [put, hw, if_pos hk]
  exact ⟨_, rfl⟩

namespace Statics.Alike

variable {s s' : Statics} {v v' : Value}

/-- A field has values that are alike, or there is none on either side. -/
theorem get (hs : s.Alike s') (name : String) :
    Agree Value.Alike (s.get name) (s'.get name) := by
  have hfield := hs name
  unfold Statics.get
  generalize s.find? name = x at hfield ⊢
  generalize s'.find? name = x' at hfield ⊢
  cases hfield with
  | some h => exact .ok h
  | none => exact .error _

/-- A field takes values that are alike, or refuses both. -/
theorem put (hs : s.Alike s') (name : String) (hv : v.Alike v') :
    Agree Statics.Alike (s.put name v) (s'.put name v') := by
  have hfield := hs name
  cases hw : s.find? name with
  | none =>
    rw [hw] at hfield
    cases hw' : s'.find? name with
    | some w' =>
      rw [hw'] at hfield
      cases hfield
    | none =>
      simp only [Statics.put, hw, hw']
      exact .error _
  | some w =>
    rw [hw] at hfield
    cases hw' : s'.find? name with
    | none =>
      rw [hw'] at hfield
      cases hfield
    | some w' =>
      rw [hw'] at hfield
      cases hfield with
      | some h =>
        by_cases hk : w.kind = v.kind
        · have hk' : w'.kind = v'.kind := by rw [h.kind, hv.kind, hk]
          obtain ⟨t, ht⟩ := exists_put hw hk
          obtain ⟨t', ht'⟩ := exists_put hw' hk'
          rw [ht, ht']
          refine .ok fun other => ?_
          rw [find?_put ht, find?_put ht']
          split
          · exact .some hv
          · exact hs other
        · have hk' : ¬ w'.kind = v'.kind := by rwa [h.kind, hv.kind]
          simp only [Statics.put, hw, hw', if_neg hk, h.kind, hv.kind]
          exact .error _

end Statics.Alike

/-- Values that are alike are stored as elements that are alike. -/
theorem ElementKind.alike_narrow? (k : ElementKind) {v v' : Value} (hv : v.Alike v') :
    Option.Rel (fun x x' => (k.widen x).Alike (k.widen x')) (k.narrow? v) (k.narrow? v') := by
  cases hv <;> cases k <;> first | exact .none | exact .some (.refl _) | skip
  · exact .some (.float ‹_›)
  · exact .some (.double ‹_›)

namespace ArrayObject.Alike

variable {a a' : ArrayObject} {v v' : Value}

theorem refl (a : ArrayObject) : a.Alike a where
  declared := rfl
  kind := rfl
  length := rfl
  elements n := by
    cases a.element? n with
    | none => exact .none
    | some v => exact .some (.refl v)

/-- An index gives elements that are alike, or is refused on both sides. -/
theorem load (ha : a.Alike a') (index : Int32) :
    Agree Value.Alike (a.load index) (a'.load index) := by
  obtain ⟨declared, kind, length, written⟩ := a
  obtain ⟨declared', kind', length', written'⟩ := a'
  obtain rfl : declared' = declared := ha.declared
  obtain rfl : kind' = kind := ha.kind
  obtain rfl : length' = length := ha.length
  unfold ArrayObject.load
  -- Positions depend on the length only.
  change Agree Value.Alike ((ArrayObject.position ⟨declared', kind', length', written⟩ index).map _)
    ((ArrayObject.position ⟨declared', kind', length', written⟩ index).map _)
  cases ArrayObject.position ⟨declared', kind', length', written⟩ index with
  | error e => exact .error e
  | ok i =>
    have hi := ha.elements i
    rw [element?_of_lt _ i.isLt, element?_of_lt ⟨declared', kind', length', written'⟩ i.isLt] at hi
    cases hi with
    | some h => exact .ok h

/-- An element is replaced on both sides, or a value is refused on both. -/
theorem store (ha : a.Alike a') (index : Int32) (hv : v.Alike v') :
    Agree ArrayObject.Alike (a.store index v) (a'.store index v') := by
  obtain ⟨declared, kind, length, written⟩ := a
  obtain ⟨declared', kind', length', written'⟩ := a'
  obtain rfl : declared' = declared := ha.declared
  obtain rfl : kind' = kind := ha.kind
  obtain rfl : length' = length := ha.length
  unfold ArrayObject.store
  change Agree ArrayObject.Alike
    (ArrayObject.position ⟨declared', kind', length', written⟩ index >>= _)
    (ArrayObject.position ⟨declared', kind', length', written⟩ index >>= _)
  cases ArrayObject.position ⟨declared', kind', length', written⟩ index with
  | error e => exact .error e
  | ok i =>
    have hx := kind'.alike_narrow? hv
    dsimp only [bind, Except.bind]
    rw [hv.kind]
    generalize kind'.narrow? v = x at hx ⊢
    generalize kind'.narrow? v' = x' at hx ⊢
    cases hx with
    | none => exact .error _
    | @some x x' h =>
      refine .ok ⟨rfl, rfl, rfl, fun n => ?_⟩
      rw [element?_set declared' ⟨kind', length', written⟩ i x n,
        element?_set declared' ⟨kind', length', written'⟩ i x' n]
      split
      · exact .some h
      · exact ha.elements n

end ArrayObject.Alike

namespace Heap.Alike

variable {h h' : Heap} {r : Reference} {a a' : ArrayObject}

/-- A reference leads to arrays that are alike, or to none on either side. -/
theorem arrayAt (hh : h.Alike h') (op : Opcode) (r : Reference) :
    Agree ArrayObject.Alike (h.arrayAt op r) (h'.arrayAt op r) := by
  have hr := hh r
  unfold Heap.arrayAt
  generalize h.object? r = o at hr ⊢
  generalize h'.object? r = o' at hr ⊢
  cases hr with
  | none => exact .error _
  | @some o o' ho =>
    rcases o with a | _ | _ <;> rcases o' with a' | _ | _ <;> cases ho <;>
      first | exact .ok ‹_› | exact .error _

/-- So it does if the arrays have to be of a given kind. -/
theorem arrayOf (hh : h.Alike h') (op : Opcode) (k : ElementKind) (r : Reference) :
    Agree ArrayObject.Alike (h.arrayOf op k r) (h'.arrayOf op k r) := by
  refine (hh.arrayAt op r).bind fun a a' ha => ?_
  rw [ha.declared]
  split
  · exact .ok ha
  · exact .error _

/-- Replacing an array by arrays that are alike keeps the heaps alike. -/
theorem setArray (hh : h.Alike h') (ha : a.Alike a') (r : Reference) :
    (h.setArray r a).Alike (h'.setArray r a') := by
  cases r with
  | null => exact hh
  | _ address =>
    have hsize : h'.objects.size = h.objects.size := size_eq_of_rel fun n => hh (.to n)
    intro r'
    by_cases hr : r' = .to address
    · subst hr
      change Option.Rel Object.Alike (h.objects.setIfInBounds address _)[address]?
        (h'.objects.setIfInBounds address _)[address]?
      rw [Array.getElem?_setIfInBounds_self, Array.getElem?_setIfInBounds_self, hsize]
      split
      · exact .some (.some ha)
      · exact .none
    · rw [object?_setArray_ne h a hr, object?_setArray_ne h' a' hr]
      exact hh r'

/-- A new object comes to the same reference on both sides. -/
theorem alloc_fst (hh : h.Alike h') (o o' : Object) : (h'.alloc o').1 = (h.alloc o).1 :=
  congrArg Reference.to (size_eq_of_rel fun n => hh (.to n))

/-- New arrays that are alike keep the heaps alike. -/
theorem alloc (hh : h.Alike h') (ha : a.Alike a') :
    (h.alloc (.array a)).2.Alike (h'.alloc (.array a')).2 := by
  have hfst := hh.alloc_fst (.array a) (.array a')
  intro r
  by_cases hr : r = (h.alloc (.array a)).1
  · have hr' : r = (h'.alloc (.array a')).1 := hr.trans hfst.symm
    rw [show (h.alloc (.array a)).2.object? r = _ from hr ▸ h.object?_alloc _,
      show (h'.alloc (.array a')).2.object? r = _ from hr' ▸ h'.object?_alloc _]
    exact .some (.some ha)
  · have hr' : r ≠ (h'.alloc (.array a')).1 := fun he => hr (he.trans hfst)
    rw [h.object?_alloc_ne _ hr, h'.object?_alloc_ne _ hr']
    exact hh r

end Heap.Alike

end StackMachine
