import StackMachine.Conversion
import StackMachine.Proofs.Footprint

/-!
# Reading elements that have been written

An element that has been written is read back as the value that the conversion to its kind
gives, wherever it is read from, and the other elements as they were before. A write fails
for its index, and only if the index is right for the kind of its value, and then nothing has
been written. The instructions for writing check the kind first, when they take the value off
the stack.
-/

namespace StackMachine

/-- The value that is read back where a value has been written to an array of a kind. -/
def ElementKind.stored : ElementKind → Value → Value
  | byte, .int n => .int (Conversion.i2b.apply n)
  | short, .int n => .int (Conversion.i2s.apply n)
  | char, .int n => .int (Conversion.i2c.apply n)
  | _, v => v

/-- Storage and the stack together convert a value. -/
theorem ElementKind.widen_of_narrow? {k : ElementKind} {v : Value} {x : k.Carrier}
    (h : k.narrow? v = some x) : k.widen x = k.stored v := by
  cases k <;> cases v <;> cases h <;> rfl

namespace ArrayObject

/-- An array has an element at an index. -/
def InBounds (a : ArrayObject) (index : Int32) : Prop :=
  0 ≤ index.toInt ∧ index.toInt < a.length

/-- What comes of writing a value to an array at an index. -/
structure StoresAt (a : ArrayObject) (index : Int32) (v : Value) : Prop where
  /-- A write fails for its index, whatever the value, and only then for the kind of the
  value. -/
  fails : ∀ f, a.store index v = .error f ↔
    (¬ a.InBounds index ∧ f = .arrayIndex index a.length) ∨
      (a.InBounds index ∧ v.kind ≠ a.declared.valueKind ∧ f = .arrayStore a.declared v.kind)
  /-- Otherwise it succeeds. -/
  succeeds : (∃ a', a.store index v = .ok a') ↔
    a.InBounds index ∧ v.kind = a.declared.valueKind
  /-- The written element is read back converted. -/
  same : ∀ a', a.store index v = .ok a' → a'.load index = .ok (a.declared.stored v)
  /-- At another index there is what there was, be it an element or none. -/
  other : ∀ a', a.store index v = .ok a' → ∀ j ≠ index, a'.load j = a.load j
  keeps : ∀ a', a.store index v = .ok a' →
    a'.declared = a.declared ∧ a'.storage.kind = a.storage.kind ∧ a'.length = a.length

variable {a a' : ArrayObject} {index : Int32} {v : Value}

/-- An index inside has a position. -/
theorem position_of_inBounds (h : a.InBounds index) : ∃ i, a.position index = .ok i :=
  ⟨_, dif_pos h⟩

theorem position_of_not_inBounds (h : ¬ a.InBounds index) :
    a.position index = .error (.arrayIndex index a.length) :=
  dif_neg h

/-- The element at a position is what is loaded there. -/
theorem load_of_element? {w : Value} (hpos : 0 ≤ index.toInt)
    (h : a.element? index.toInt.toNat = some w) : a.load index = .ok w := by
  unfold element? at h
  split at h
  · rename_i hlt
    cases h
    have hin : a.InBounds index := ⟨hpos, by omega⟩
    have hposition : a.position index = .ok ⟨index.toInt.toNat, hlt⟩ := dif_pos hin
    rw [load, hposition]
    rfl
  · cases h

theorem load_of_not_inBounds (h : ¬ a.InBounds index) :
    a.load index = .error (.arrayIndex index a.length) := by
  rw [load, position_of_not_inBounds h]
  rfl

/-! ### One array -/

/-- The ways in which a write ends. -/
theorem store_cases (a : ArrayObject) (index : Int32) (v : Value) :
    (¬ a.InBounds index ∧ a.store index v = .error (.arrayIndex index a.length)) ∨
      (a.InBounds index ∧ v.kind ≠ a.storage.kind.valueKind ∧
        a.store index v = .error (.arrayStore a.declared v.kind)) ∨
      (a.InBounds index ∧ v.kind = a.storage.kind.valueKind ∧ ∃ a', a.store index v = .ok a') := by
  by_cases hin : a.InBounds index
  · obtain ⟨i, hi⟩ := position_of_inBounds hin
    rw [store, hi]
    cases hx : a.storage.kind.narrow? v with
    | none =>
      refine .inr (.inl ⟨hin, fun hk => ?_, rfl⟩)
      have hsome := ElementKind.isSome_narrow?_iff.2 hk
      rw [hx] at hsome
      cases hsome
    | some x =>
      exact .inr (.inr ⟨hin, ElementKind.isSome_narrow?_iff.1 (by rw [hx]; rfl), _, rfl⟩)
  · refine .inl ⟨hin, ?_⟩
    rw [store, position_of_not_inBounds hin]
    rfl

/-- The storage alone decides what is read back. -/
theorem load_of_store (h : a.store index v = .ok a') :
    a'.load index = .ok (a.storage.kind.stored v) := by
  have hreplaced := replacedAt_of_store h
  obtain ⟨i, x, -, hx, -⟩ := store_ok h
  refine load_of_element? hreplaced.inside.1 ?_
  rw [hreplaced.written, hx, Option.map_some, ElementKind.widen_of_narrow? hx]

/-- A store leaves the elements at other indices alone. -/
theorem load_of_store_ne {j : Int32} (h : a.store index v = .ok a') (hj : j ≠ index) :
    a'.load j = a.load j := by
  have hreplaced := replacedAt_of_store h
  by_cases hin : a.InBounds j
  · have hne : j.toInt.toNat ≠ index.toInt.toNat := fun he => by
      have hpos := hreplaced.inside.1
      have hpos' := hin.1
      exact hj (Int32.toInt_inj.1 (by omega))
    have hlt : j.toInt.toNat < a.length := by
      have := hin.1
      have := hin.2
      omega
    have hold := element?_of_lt a hlt
    have hnew := (hreplaced.other _ hne).trans hold
    rw [load_of_element? hin.1 hold, load_of_element? hin.1 hnew]
  · -- The length is the same, so there is no new element at this index either.
    have hin' : ¬ a'.InBounds j := by
      unfold InBounds
      rwa [hreplaced.length]
    rw [load_of_not_inBounds hin, load_of_not_inBounds hin', hreplaced.length]

/-- An array that stores what it is declared to is written to as it should be. -/
theorem storesAt (sound : a.storage.kind = a.declared) (index : Int32) (v : Value) :
    a.StoresAt index v where
  fails f := by
    have hkind : a.declared.valueKind = a.storage.kind.valueKind := by rw [sound]
    rw [hkind]
    rcases a.store_cases index v with ⟨hin, hs⟩ | ⟨hin, hk, hs⟩ | ⟨hin, hk, a', hs⟩
    · simp [hs, hin, eq_comm]
    · simp [hs, hin, hk, eq_comm]
    · simp [hs, hin, hk]
  succeeds := by
    rw [← sound]
    rcases a.store_cases index v with ⟨hin, hs⟩ | ⟨hin, hk, hs⟩ | ⟨hin, hk, a', hs⟩
    · simp [hs, hin]
    · simp [hs, hin, hk]
    · simp [hs, hin, hk]
  same a' h := sound ▸ load_of_store h
  other a' h j hj := load_of_store_ne h hj
  keeps a' h :=
    have hreplaced := replacedAt_of_store h
    ⟨hreplaced.declared, hreplaced.kind, hreplaced.length⟩

end ArrayObject

/-! ### Instructions -/

/-- Reading an element of an array has an outcome. It depends on the array alone and not on
who reads it: it is the same in every machine in which a reference leads to this array,
wherever that machine has the reference from. -/
def ArrayObject.Reads (a : ArrayObject) (index : Int32) (outcome : Except Fault Value) : Prop :=
  ∀ (m : Machine) (r : Reference) (operand : Operand Value) (below : List Value),
    m.heap.array? r = some a → m.frame.stack = .int index :: .reference r :: below →
    below.length < m.frame.maxStack →
    Action.step ⟨.arrayLoad a.declared, operand⟩ m =
      match outcome with
      | .ok v => .ok .next (m.past 1 (v :: below))
      | .error f => .error ⟨m.frame.pc, .fault f⟩ (m.withStack below)

/-- What is loaded is read as the element is. -/
theorem ArrayObject.reads (a : ArrayObject) (index : Int32) : a.Reads index (a.load index) := by
  intro m r operand below ha hstack hroom
  let args : Arguments [some .int, some .reference] := (index, r, ())
  have hp : Instruction.plan? ⟨.arrayLoad a.declared, operand⟩ =
      some (.loadingElement (.arrayLoad a.declared) a.declared) := rfl
  have htaken : m.frame.stack = args.values ++ below := hstack
  have harray : m.store.heap.arrayOf (.arrayLoad a.declared) a.declared r = .ok a :=
    Heap.arrayOf_ok.2 ⟨ha, rfl⟩
  have heffect := Plan.loadingElement_of_array index harray
  cases hload : a.load index with
  | ok v =>
    rw [hload] at heffect
    exact Action.step_of_effect hp htaken heffect (.inr hroom)
  | error f =>
    rw [hload] at heffect
    exact Action.step_of_refusal hp htaken heffect

/-- What comes of an instruction for writing a value to an array at an index, when the array is
declared for what the instruction writes. -/
structure Machine.StoresElement (m : Machine) (r : Reference) (a : ArrayObject) (index : Int32)
    (v : Value) (below : List Value) (operand : Operand Value) : Prop where
  /-- A value of another kind is refused as soon as it is taken. -/
  mismatched : v.kind ≠ a.declared.valueKind →
    Action.step ⟨.arrayStore a.declared, operand⟩ m =
      .error ⟨m.frame.pc, .kindMismatch (.arrayStore a.declared) a.declared.valueKind v.kind⟩
        (m.withStack (.int index :: .reference r :: below))
  /-- An index that is out of bounds is refused when everything has been taken. -/
  outside : v.kind = a.declared.valueKind → ¬ a.InBounds index →
    Action.step ⟨.arrayStore a.declared, operand⟩ m =
      .error ⟨m.frame.pc, .fault (.arrayIndex index a.length)⟩ (m.withStack below)
  /-- Otherwise the array is replaced by one that is read back as it should be, and nothing
  else on the heap is. -/
  stored : v.kind = a.declared.valueKind → a.InBounds index →
    ∃ heap a', Action.step ⟨.arrayStore a.declared, operand⟩ m =
        .ok .next { m.past 1 below with heap := heap } ∧
      heap.array? r = some a' ∧ (∀ r' ≠ r, heap.object? r' = m.heap.object? r') ∧
      a'.declared = a.declared ∧ a'.storage.kind = a.storage.kind ∧ a'.length = a.length ∧
      a'.Reads index (.ok (a.declared.stored v)) ∧ ∀ j ≠ index, a'.Reads j (a.load j)

/-- The instruction stores what the array does, or fails for the same reason. -/
theorem Machine.storesElement {m : Machine} {r : Reference} {a : ArrayObject} {index : Int32}
    {v : Value} {below : List Value} (operand : Operand Value)
    (sound : a.storage.kind = a.declared) (ha : m.heap.array? r = some a)
    (hstack : m.frame.stack = v :: .int index :: .reference r :: below) :
    m.StoresElement r a index v below operand := by
  have hp : Instruction.plan? ⟨.arrayStore a.declared, operand⟩ =
      some (.storingElement (.arrayStore a.declared) a.declared) := rfl
  have harray : m.store.heap.arrayOf (.arrayStore a.declared) a.declared r = .ok a :=
    Heap.arrayOf_ok.2 ⟨ha, rfl⟩
  have hstores := a.storesAt sound index v
  have htaken (hk : v.kind = a.declared.valueKind) :
      ∃ args : Arguments [some a.declared.valueKind, some .int, some .reference],
        m.frame.stack = args.values ++ below ∧ args.2 = (index, r, ()) ∧
          v = .of a.declared.valueKind args.1 := by
    obtain ⟨x, hv⟩ := Value.exists_of_kind hk
    exact ⟨(x, index, r, ()), by rw [hstack, hv]; rfl, rfl, hv⟩
  refine ⟨fun hk => Action.step_of_kind_ne hp rfl hstack hk, fun hk hout => ?_, fun hk hin => ?_⟩
  · obtain ⟨⟨x, _⟩, hargs, rfl, rfl⟩ := htaken hk
    have heffect := Plan.storingElement_of_array x index harray
    rw [(hstores.fails _).2 (.inl ⟨hout, rfl⟩)] at heffect
    exact Action.step_of_refusal hp hargs heffect
  · obtain ⟨⟨x, _⟩, hargs, rfl, rfl⟩ := htaken hk
    obtain ⟨a', ha'⟩ := hstores.succeeds.2 ⟨hin, hk⟩
    have heffect := Plan.storingElement_of_array x index harray
    rw [ha'] at heffect
    obtain ⟨hdeclared, hkind, hlength⟩ := hstores.keeps a' ha'
    refine ⟨_, a', Action.step_of_effect hp hargs heffect (.inl rfl), Heap.array?_setArray ha,
      fun r' hr => Heap.object?_setArray_ne m.heap a' hr, hdeclared, hkind, hlength, ?_,
      fun j hj => ?_⟩
    · rw [← hstores.same a' ha']
      exact a'.reads index
    · rw [← hstores.other a' ha' j hj]
      exact a'.reads j

/-- An array that stores what it is declared to gives back what was written to it, converted to
the kind of its elements, to everyone who reads it, and otherwise what was there before. A
write fails for its index or, if the index is right, for the kind of its value. So does the
instruction for writing, which judges the kind first, and whichever way it fails, it leaves
all objects as they are. -/
theorem elements_read_as_written (a : ArrayObject) (sound : a.storage.kind = a.declared)
    (index : Int32) (v : Value) :
    a.StoresAt index v ∧
      ∀ (m : Machine) (r : Reference) (operand : Operand Value) (below : List Value),
        m.heap.array? r = some a →
        m.frame.stack = v :: .int index :: .reference r :: below →
        m.StoresElement r a index v below operand :=
  ⟨a.storesAt sound index v, fun _ _ operand _ ha hstack =>
    Machine.storesElement operand sound ha hstack⟩

/-- A value that is too large for a byte keeps its low bits, and the other byte is what it
was. -/
theorem elements_read_as_written_byte :
    let a := ArrayObject.zeroed .byte 2
    let h := Heap.empty.alloc (.array a)
    let frame : Frame := ⟨[.int 200, .int 1, .reference h.1], ⟨#[]⟩, 0, 3⟩
    a.storage.kind = a.declared ∧
      (∃ a', a.store 1 (.int 200) = .ok a' ∧ a'.load 1 = .ok (.int (-56)) ∧
        a'.load 0 = a.load 0) ∧
      Machine.StoresElement ⟨frame, .empty, h.2⟩ h.1 a 1 (.int 200) [] .none := by
  intro a h frame
  obtain ⟨hstores, hstep⟩ := elements_read_as_written a rfl 1 (.int 200)
  obtain ⟨a', ha'⟩ := hstores.succeeds.2 ⟨⟨by decide, by decide⟩, rfl⟩
  exact ⟨rfl, ⟨a', ha', hstores.same a' ha', hstores.other a' ha' 0 (by decide)⟩,
    hstep _ _ _ _ (Heap.array?_alloc .empty a) rfl⟩

end StackMachine
