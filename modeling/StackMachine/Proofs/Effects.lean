import StackMachine.Proofs.Plan

/-!
# What follows from the arguments

For every family of plans whose arguments can be refused: what is known when they are
not, and what the refusals are. Taken together over all opcodes, this is what an instruction
yields, one rule for each of them, and what holds of all effects of instructions is read off
these rules.
-/

namespace StackMachine

/-- A sequence of computations that has a result has one at each stage. -/
theorem exists_of_bind_ok {ε α β : Type} {x : Except ε α} {f : α → Except ε β} {b : β}
    (h : x >>= f = .ok b) : ∃ a, x = .ok a ∧ f a = .ok b := by
  cases x with
  | error e => cases h
  | ok a => exact ⟨a, rfl, h⟩

/-- A sequence of computations that has no result ends at its first or at a later stage. -/
theorem exists_of_bind_error {ε α β : Type} {x : Except ε α} {f : α → Except ε β} {c : ε}
    (h : x >>= f = .error c) : x = .error c ∨ ∃ a, x = .ok a ∧ f a = .error c := by
  cases x with
  | error e =>
    cases h
    exact .inl rfl
  | ok a => exact .inr ⟨a, rfl, h⟩

theorem ok_of_mapError {ε δ α : Type} {f : ε → δ} {x : Except ε α} {a : α}
    (h : x.mapError f = .ok a) : x = .ok a := by
  cases x with
  | error e => cases h
  | ok a' =>
    cases h
    rfl

/-- An error under another name comes from an error. -/
theorem error_of_mapError {ε δ α : Type} {f : ε → δ} {x : Except ε α} {c : δ}
    (h : x.mapError f = .error c) : ∃ e, x = .error e ∧ c = f e := by
  cases x with
  | error e =>
    cases h
    exact ⟨e, rfl, rfl⟩
  | ok a => cases h

namespace Heap

variable {h : Heap} {op : Opcode} {k : ElementKind} {r : Reference} {a : ArrayObject} {c : Cause}

/-- A reference gives an array exactly if it leads to one. -/
theorem arrayAt_ok : h.arrayAt op r = .ok a ↔ h.array? r = some a := by
  unfold arrayAt array?
  rcases h.object? r with _ | _ | _ | _ <;> simp

/-- A reference that gives no array is null or leads to another object. -/
theorem arrayAt_error (he : h.arrayAt op r = .error c) :
    h.array? r = none ∧ (c = .nullReference ∨ c = .notAnArray op) := by
  unfold arrayAt at he
  unfold array?
  generalize h.object? r = o at he ⊢
  rcases o with _ | _ | _ | _ <;> cases he
  · exact ⟨rfl, .inl rfl⟩
  · exact ⟨rfl, .inr rfl⟩
  · exact ⟨rfl, .inr rfl⟩

/-- A reference gives an array of a kind exactly if it leads to one that is declared to be of it. -/
theorem arrayOf_ok : h.arrayOf op k r = .ok a ↔ h.array? r = some a ∧ a.declared = k := by
  constructor
  · intro he
    obtain ⟨a', ha, he⟩ := exists_of_bind_ok he
    split at he
    · rename_i hk
      cases he
      exact ⟨arrayAt_ok.1 ha, hk⟩
    · cases he
  · rintro ⟨ha, hk⟩
    rw [arrayOf, arrayAt_ok.2 ha]
    exact if_pos hk

/-- Otherwise it is null, leads to another object or to an array of another kind. -/
theorem arrayOf_error (he : h.arrayOf op k r = .error c) :
    c = .nullReference ∨ c = .notAnArray op ∨ ∃ found, c = .arrayKindMismatch op found := by
  rcases exists_of_bind_error he with he | ⟨a, -, he⟩
  · exact (arrayAt_error he).2.imp_right .inl
  · split at he
    · cases he
    · cases he
      exact .inr (.inr ⟨a.declared, rfl⟩)

end Heap

namespace ArrayObject

variable {a a' : ArrayObject} {index : Int32} {v : Value} {f : Fault}

/-- An index has no position only if it lies outside the array. -/
theorem position_error (h : a.position index = .error f) : f = .arrayIndex index a.length := by
  unfold position at h
  split at h <;> cases h
  rfl

/-- A loaded value is the element at the position of the index. -/
theorem load_ok (h : a.load index = .ok v) : ∃ i, a.position index = .ok i ∧ v = a.get i := by
  unfold load at h
  cases hp : a.position index with
  | error e => simp [hp, Except.map] at h
  | ok i =>
    simp only [hp, Except.map, Except.ok.injEq] at h
    exact ⟨i, rfl, h.symm⟩

/-- Only an index outside the array keeps an element from being loaded. -/
theorem load_error (h : a.load index = .error f) : f = .arrayIndex index a.length := by
  unfold load at h
  cases hp : a.position index with
  | error e =>
    simp only [hp, Except.map, Except.error.injEq] at h
    exact h ▸ position_error hp
  | ok i => simp [hp, Except.map] at h

/-- A stored value is narrowed and replaces the element at the position of the index. -/
theorem store_ok (h : a.store index v = .ok a') :
    ∃ i x, a.position index = .ok i ∧ a.storage.kind.narrow? v = some x ∧
      a' = { a with storage := a.storage.set i x } := by
  obtain ⟨i, hi, h⟩ := exists_of_bind_ok h
  split at h
  · rename_i x hx
    cases h
    exact ⟨i, x, hi, hx, rfl⟩
  · cases h

/-- A value is not stored if the index lies outside the array, or if the storage is of another
kind. -/
theorem store_error (h : a.store index v = .error f) :
    f = .arrayIndex index a.length ∨
      f = .arrayStore a.declared v.kind ∧ v.kind ≠ a.storage.kind.valueKind := by
  rcases exists_of_bind_error h with h | ⟨i, -, h⟩
  · exact .inl (position_error h)
  · split at h
    · cases h
    · rename_i hn
      cases h
      refine .inr ⟨rfl, fun hk => ?_⟩
      have := ElementKind.isSome_narrow?_iff.2 hk
      simp [hn] at this

end ArrayObject

/-- What arguments can be refused for. -/
def Cause.IsRefusal : Cause → Prop
  | .badOperand _ | .stackUnderflow | .stackOverflow => False
  | _ => True

namespace Plan

variable {op : Opcode} {s : Store} {e : Effect} {c : Cause}

/-- A value that is loaded has the kind that the opcode tells. -/
theorem loading_ok {k : Kind} {index : UInt16} {args : Arguments []}
    (h : (loading op k index).effect args s = .ok e) :
    ∃ v, s.locals.load index = .ok v ∧ v.kind = k ∧ e = .push v s := by
  obtain ⟨v, hv, h⟩ := exists_of_bind_ok h
  split at h
  · rename_i hk
    cases h
    exact ⟨v, ok_of_mapError hv, hk, rfl⟩
  · cases h

/-- A slot is not loaded if there is none, or if its value is of another kind. -/
theorem loading_error {k : Kind} {index : UInt16} {args : Arguments []}
    (h : (loading op k index).effect args s = .error c) :
    (∃ f, s.locals.load index = .error f ∧ c = .fault f) ∨
      ∃ v, s.locals.load index = .ok v ∧ v.kind ≠ k ∧ c = .kindMismatch op k v.kind := by
  rcases exists_of_bind_error h with h | ⟨v, hv, h⟩
  · exact .inl (error_of_mapError h)
  · split at h
    · cases h
    · rename_i hk
      cases h
      exact .inr ⟨v, ok_of_mapError hv, hk, rfl⟩

/-- Only the slots are written when a slot is. -/
theorem setSlot_ok {index : UInt16} {v : Value} (h : setSlot index v s = .ok e) :
    ∃ locals, s.locals.store index v = .ok locals ∧ e = .write { s with locals := locals } := by
  obtain ⟨locals, hl, h⟩ := exists_of_bind_ok h
  cases h
  exact ⟨locals, ok_of_mapError hl, rfl⟩

theorem setSlot_error {index : UInt16} {v : Value} (h : setSlot index v s = .error c) :
    ∃ f, s.locals.store index v = .error f ∧ c = .fault f := by
  rcases exists_of_bind_error h with h | ⟨locals, -, h⟩
  · exact error_of_mapError h
  · cases h

/-- A slot is increased if it holds an int. -/
theorem incrementing_ok {index : UInt16} {delta : Int16} {args : Arguments []}
    (h : (incrementing op index delta).effect args s = .ok e) :
    ∃ a locals, s.locals.load index = .ok (.int a) ∧
      s.locals.store index (.int (increment a delta)) = .ok locals ∧
      e = .write { s with locals := locals } := by
  obtain ⟨v, hv, h⟩ := exists_of_bind_ok h
  cases v with
  | int a =>
    obtain ⟨locals, hl, he⟩ := setSlot_ok h
    exact ⟨a, locals, ok_of_mapError hv, hl, he⟩
  | _ => cases h

/-- It is not if there is no such slot, or if it holds a value of another kind. -/
theorem incrementing_error {index : UInt16} {delta : Int16} {args : Arguments []}
    (h : (incrementing op index delta).effect args s = .error c) :
    (∃ f, s.locals.load index = .error f ∧ c = .fault f) ∨
      (∃ a f, s.locals.load index = .ok (.int a) ∧
        s.locals.store index (.int (increment a delta)) = .error f ∧ c = .fault f) ∨
      ∃ v, s.locals.load index = .ok v ∧ v.kind ≠ .int ∧ c = .kindMismatch op .int v.kind := by
  rcases exists_of_bind_error h with h | ⟨v, hv, h⟩
  · exact .inl (error_of_mapError h)
  · have hv := ok_of_mapError hv
    cases v with
    | int a =>
      obtain ⟨f, hf, hc⟩ := setSlot_error h
      exact .inr (.inl ⟨a, f, hv, hf, hc⟩)
    | _ =>
      cases h
      exact .inr (.inr ⟨_, hv, by simp [Value.kind], rfl⟩)

/-- Once there is an array of the right kind, only the index can be wrong. -/
theorem loadingElement_of_array {k : ElementKind} {r : Reference} {a : ArrayObject}
    (index : Int32) (ha : s.heap.arrayOf op k r = .ok a) :
    (loadingElement op k).effect (index, r, ()) s =
      (a.load index).mapError Cause.fault >>= fun v => .ok (.push v s) := by
  change s.heap.arrayOf op k r >>= _ = _
  rw [ha]
  rfl

/-- An element is loaded from an array of the kind that the opcode tells. -/
theorem loadingElement_ok {k : ElementKind} {args : Arguments [some .int, some .reference]}
    (h : (loadingElement op k).effect args s = .ok e) :
    ∃ a v, s.heap.array? args.2.1 = some a ∧ a.declared = k ∧ a.load args.1 = .ok v ∧
      e = .push v s := by
  obtain ⟨a, ha, h⟩ := exists_of_bind_ok h
  obtain ⟨v, hv, h⟩ := exists_of_bind_ok h
  cases h
  obtain ⟨ha, hk⟩ := Heap.arrayOf_ok.1 ha
  exact ⟨a, v, ha, hk, ok_of_mapError hv, rfl⟩

/-- An element is not loaded if there is no such array, or if the index lies outside it. -/
theorem loadingElement_error {k : ElementKind} {args : Arguments [some .int, some .reference]}
    (h : (loadingElement op k).effect args s = .error c) :
    c = .nullReference ∨ c = .notAnArray op ∨ (∃ found, c = .arrayKindMismatch op found) ∨
      ∃ index length, c = .fault (.arrayIndex index length) := by
  rcases exists_of_bind_error h with h | ⟨a, -, h⟩
  · rcases Heap.arrayOf_error h with h | h | h
    · exact .inl h
    · exact .inr (.inl h)
    · exact .inr (.inr (.inl h))
  · rcases exists_of_bind_error h with h | ⟨v, -, h⟩
    · obtain ⟨f, hf, rfl⟩ := error_of_mapError h
      exact .inr (.inr (.inr ⟨_, _, congrArg Cause.fault (ArrayObject.load_error hf)⟩))
    · cases h

/-- Once there is an array of the right kind, only the store itself can be refused. -/
theorem storingElement_of_array {k : ElementKind} {r : Reference} {a : ArrayObject}
    (x : k.valueKind.Carrier) (index : Int32) (ha : s.heap.arrayOf op k r = .ok a) :
    (storingElement op k).effect (x, index, r, ()) s =
      (a.store index (.of k.valueKind x)).mapError Cause.fault >>= fun a' =>
        .ok (.write { s with heap := s.heap.setArray r a' }) := by
  change s.heap.arrayOf op k r >>= _ = _
  rw [ha]
  rfl

/-- An element is stored into an array of the kind that the opcode tells, and nowhere else. -/
theorem storingElement_ok {k : ElementKind}
    {args : Arguments [some k.valueKind, some .int, some .reference]}
    (h : (storingElement op k).effect args s = .ok e) :
    ∃ a a', s.heap.array? args.2.2.1 = some a ∧ a.declared = k ∧
      a.store args.2.1 (.of k.valueKind args.1) = .ok a' ∧
      e = .write { s with heap := s.heap.setArray args.2.2.1 a' } := by
  obtain ⟨a, ha, h⟩ := exists_of_bind_ok h
  obtain ⟨a', ha', h⟩ := exists_of_bind_ok h
  cases h
  obtain ⟨ha, hk⟩ := Heap.arrayOf_ok.1 ha
  exact ⟨a, a', ha, hk, ok_of_mapError ha', rfl⟩

/-- An element is not stored if there is no such array, or if the array refuses it. -/
theorem storingElement_error {k : ElementKind}
    {args : Arguments [some k.valueKind, some .int, some .reference]}
    (h : (storingElement op k).effect args s = .error c) :
    c = .nullReference ∨ c = .notAnArray op ∨ (∃ found, c = .arrayKindMismatch op found) ∨
      ∃ a, s.heap.array? args.2.2.1 = some a ∧ a.declared = k ∧
        ∃ f, a.store args.2.1 (.of k.valueKind args.1) = .error f ∧ c = .fault f := by
  rcases exists_of_bind_error h with h | ⟨a, ha, h⟩
  · rcases Heap.arrayOf_error h with h | h | h
    · exact .inl h
    · exact .inr (.inl h)
    · exact .inr (.inr (.inl h))
  · rcases exists_of_bind_error h with h | ⟨a', -, h⟩
    · obtain ⟨ha, hk⟩ := Heap.arrayOf_ok.1 ha
      exact .inr (.inr (.inr ⟨a, ha, hk, error_of_mapError h⟩))
    · cases h

/-- A new array has the length that was asked for, which is not negative. -/
theorem allocating_ok {k : ElementKind} {args : Arguments [some .int]}
    (h : (allocating k).effect args s = .ok e) :
    0 ≤ args.1.toInt ∧
      e = .push (.reference (s.heap.alloc (.array (.zeroed k args.1.toInt.toNat))).1)
        { s with heap := (s.heap.alloc (.array (.zeroed k args.1.toInt.toNat))).2 } := by
  simp only [allocating] at h
  split at h
  · cases h
  · rename_i hn
    cases h
    exact ⟨Int.not_lt.1 fun hlt => hn (Int32.lt_iff_toInt_lt.2 hlt), rfl⟩

/-- A new array is refused only for a negative length. -/
theorem allocating_error {k : ElementKind} {args : Arguments [some .int]}
    (h : (allocating k).effect args s = .error c) : c = .negativeArraySize args.1 := by
  simp only [allocating] at h
  split at h <;> cases h
  rfl

/-- The length is that of the array to which the reference leads. -/
theorem measuring_ok {args : Arguments [some .reference]}
    (h : (measuring op).effect args s = .ok e) :
    ∃ a, s.heap.array? args.1 = some a ∧ e = .push (.int (Action.lengthValue a.length)) s := by
  obtain ⟨a, ha, h⟩ := exists_of_bind_ok h
  cases h
  exact ⟨a, Heap.arrayAt_ok.1 ha, rfl⟩

/-- There is no length without an array. -/
theorem measuring_error {args : Arguments [some .reference]}
    (h : (measuring op).effect args s = .error c) : c = .nullReference ∨ c = .notAnArray op := by
  rcases exists_of_bind_error h with h | ⟨a, -, h⟩
  · exact (Heap.arrayAt_error h).2
  · cases h

/-- Two numbers yield what the operation gives. -/
theorem binary_ok {k target : Kind} {f : k.Carrier → k.Carrier → Except Fault target.Carrier}
    {args : Arguments [some k, some k]} (h : (binary k target f).effect args s = .ok e) :
    ∃ x, f args.2.1 args.1 = .ok x ∧ e = .push (.of target x) s := by
  obtain ⟨x, hx, h⟩ := exists_of_bind_ok h
  cases h
  exact ⟨x, ok_of_mapError hx, rfl⟩

/-- They are refused only with the fault of the operation. -/
theorem binary_error {k target : Kind} {f : k.Carrier → k.Carrier → Except Fault target.Carrier}
    {args : Arguments [some k, some k]} (h : (binary k target f).effect args s = .error c) :
    ∃ g, f args.2.1 args.1 = .error g ∧ c = .fault g := by
  rcases exists_of_bind_error h with h | ⟨x, -, h⟩
  · exact error_of_mapError h
  · cases h

/-- A static field is read if there is one of the name and the kind. -/
theorem getting_ok {f : FieldRef} {args : Arguments []} (h : (getting f).effect args s = .ok e) :
    ∃ v, s.statics.find? f.name = some v ∧ v.kind = f.kind ∧ e = .push v s := by
  obtain ⟨v, hv, h⟩ := exists_of_bind_ok h
  split at h
  · rename_i hk
    cases h
    have hv := ok_of_mapError hv
    unfold Statics.get at hv
    split at hv <;> cases hv
    exact ⟨v, ‹_›, hk, rfl⟩
  · cases h

/-- Otherwise it is unknown or of another kind. -/
theorem getting_error {f : FieldRef} {args : Arguments []}
    (h : (getting f).effect args s = .error c) :
    (s.statics.find? f.name = none ∧ c = .unknownField f.name) ∨
      ∃ v, s.statics.find? f.name = some v ∧ v.kind ≠ f.kind ∧
        c = .fieldKindMismatch f.name v.kind f.kind := by
  rcases exists_of_bind_error h with h | ⟨v, hv, h⟩
  · obtain ⟨e, he, rfl⟩ := error_of_mapError h
    unfold Statics.get at he
    split at he <;> cases he
    exact .inl ⟨‹_›, rfl⟩
  · split at h
    · cases h
    · rename_i hk
      cases h
      have hv := ok_of_mapError hv
      unfold Statics.get at hv
      split at hv <;> cases hv
      exact .inr ⟨v, ‹_›, hk, rfl⟩

/-- A static field is replaced, and nothing else is written. -/
theorem putting_ok {f : FieldRef} {args : Arguments [some f.kind]}
    (h : (putting f).effect args s = .ok e) :
    ∃ statics, s.statics.put f.name (.of f.kind args.1) = .ok statics ∧
      e = .write { s with statics := statics } := by
  obtain ⟨statics, hs, h⟩ := exists_of_bind_ok h
  cases h
  exact ⟨statics, ok_of_mapError hs, rfl⟩

/-- A static field is not replaced if it is unknown or of another kind. -/
theorem putting_error {f : FieldRef} {args : Arguments [some f.kind]}
    (h : (putting f).effect args s = .error c) :
    (s.statics.find? f.name = none ∧ c = .unknownField f.name) ∨
      ∃ v, s.statics.find? f.name = some v ∧ v.kind ≠ f.kind ∧
        c = .fieldKindMismatch f.name v.kind f.kind := by
  rcases exists_of_bind_error h with h | ⟨statics, -, h⟩
  · obtain ⟨e, he, rfl⟩ := error_of_mapError h
    rcases Statics.put_error he with ⟨hnone, rfl⟩ | ⟨w, hw, hk, rfl⟩
    · exact .inl ⟨hnone, rfl⟩
    · rw [Value.kind_of] at hk
      exact .inr ⟨w, hw, hk, by rw [Value.kind_of]; rfl⟩
  · cases h

/-- Refused arguments are never reported as an operand that does not fit, which is noticed before
they are taken, or as a stack that is too low or too high. -/
theorem Family.isRefusal {p : Plan} {need : Need} {flow : Flow} (h : p.Family need flow)
    {args : Arguments p.demand} (he : p.effect args s = .error c) : c.IsRefusal := by
  cases h with
  | loading op k index => rcases loading_error he with ⟨f, -, rfl⟩ | ⟨v, -, -, rfl⟩ <;> trivial
  | storing k index =>
    obtain ⟨f, -, rfl⟩ := setSlot_error he
    trivial
  | incrementing op index delta =>
    rcases incrementing_error he with ⟨f, -, rfl⟩ | ⟨a, f, -, -, rfl⟩ | ⟨v, -, -, rfl⟩ <;> trivial
  | loadingElement op k =>
    rcases loadingElement_error he with rfl | rfl | ⟨found, rfl⟩ | ⟨index, length, rfl⟩ <;> trivial
  | storingElement op k =>
    rcases storingElement_error he with rfl | rfl | ⟨found, rfl⟩ | ⟨a, -, -, f, -, rfl⟩ <;> trivial
  | allocating k =>
    obtain rfl := allocating_error he
    trivial
  | measuring op => rcases measuring_error he with rfl | rfl <;> trivial
  | arithmetic | bitwise | compare =>
    obtain ⟨g, -, rfl⟩ := binary_error he
    trivial
  | getting f => rcases getting_error he with ⟨-, rfl⟩ | ⟨v, -, -, rfl⟩ <;> trivial
  | putting f => rcases putting_error he with ⟨-, rfl⟩ | ⟨v, -, -, rfl⟩ <;> trivial
  | pushing | dropping | duplicating | exchanging | negate | convert | shifting | branching
  | calling | returning | leaving => cases he

end Plan

/-! ### What instructions yield -/

/-- Push a new array whose elements are zeros. -/
def Effect.allocate (k : ElementKind) (size : Int32) (s : Store) : Effect :=
  let made := s.heap.alloc (.array (.zeroed k size.toInt.toNat))
  .push (.reference made.1) { s with heap := made.2 }

namespace Instruction

/-- What an instruction comes to in a store when its arguments, the topmost first, are not refused,
and what is known of the store then. -/
inductive Yields : Instruction Value → List Value → Store → Effect → Prop where
  | constant (c : SmallConstant) (o : Operand Value) (s : Store) :
      Yields ⟨.constant c, o⟩ [] s (.push c.value s)
  | bipush {o : Operand Value} {n : Int32} (s : Store)
      (fits : immediate? ⟨.bipush, o⟩ (-128) 127 = some n) :
      Yields ⟨.bipush, o⟩ [] s (.push (.int n) s)
  | sipush {o : Operand Value} {n : Int32} (s : Store)
      (fits : immediate? ⟨.sipush, o⟩ (-32768) 32767 = some n) :
      Yields ⟨.sipush, o⟩ [] s (.push (.int n) s)
  | ldc {o : Operand Value} {v : Value} (s : Store)
      (fits : constant? ⟨.ldc, o⟩ false = some v) : Yields ⟨.ldc, o⟩ [] s (.push v s)
  | ldcWide {o : Operand Value} {v : Value} (s : Store)
      (fits : constant? ⟨.ldcWide, o⟩ false = some v) : Yields ⟨.ldcWide, o⟩ [] s (.push v s)
  | ldc2 {o : Operand Value} {v : Value} (s : Store)
      (fits : constant? ⟨.ldc2, o⟩ true = some v) : Yields ⟨.ldc2, o⟩ [] s (.push v s)
  | load {k : Kind} {slot : Option (Fin 4)} {o : Operand Value} {index : UInt16} {v : Value}
      {s : Store} (names : slot? ⟨.load k slot, o⟩ slot = some index)
      (held : s.locals.load index = .ok v) (kind : v.kind = k) :
      Yields ⟨.load k slot, o⟩ [] s (.push v s)
  | store {k : Kind} {slot : Option (Fin 4)} {o : Operand Value} {index : UInt16} {s : Store}
      {locals : Locals} (x : k.Carrier) (names : slot? ⟨.store k slot, o⟩ slot = some index)
      (stored : s.locals.store index (.of k x) = .ok locals) :
      Yields ⟨.store k slot, o⟩ [.of k x] s (.write { s with locals := locals })
  | iinc {index : UInt16} {delta : Int16} {n : Int32} {s : Store} {locals : Locals}
      (held : s.locals.load index = .ok (.int n))
      (stored : s.locals.store index (.int (increment n delta)) = .ok locals) :
      Yields ⟨.iinc, .increment index delta⟩ [] s (.write { s with locals := locals })
  | arrayLoad {k : ElementKind} {r : Reference} {a : ArrayObject} {v : Value} {s : Store}
      (o : Operand Value) (index : Int32) (array : s.heap.array? r = some a)
      (declared : a.declared = k) (element : a.load index = .ok v) :
      Yields ⟨.arrayLoad k, o⟩ [.int index, .reference r] s (.push v s)
  | arrayStore {k : ElementKind} {r : Reference} {a a' : ArrayObject} {s : Store}
      (o : Operand Value) (x : k.valueKind.Carrier) (index : Int32)
      (array : s.heap.array? r = some a) (declared : a.declared = k)
      (stored : a.store index (.of k.valueKind x) = .ok a') :
      Yields ⟨.arrayStore k, o⟩ [.of k.valueKind x, .int index, .reference r] s
        (.write { s with heap := s.heap.setArray r a' })
  | newarray {o : Operand Value} {k : ElementKind} {size : Int32} (s : Store)
      (fits : primitive? ⟨.newarray, o⟩ = some k) (nonneg : 0 ≤ size.toInt) :
      Yields ⟨.newarray, o⟩ [.int size] s (.allocate k size s)
  | anewarray {size : Int32} (o : Operand Value) (s : Store) (nonneg : 0 ≤ size.toInt) :
      Yields ⟨.anewarray, o⟩ [.int size] s (.allocate .reference size s)
  | arraylength {r : Reference} {a : ArrayObject} {s : Store} (o : Operand Value)
      (array : s.heap.array? r = some a) :
      Yields ⟨.arraylength, o⟩ [.reference r] s (.push (.int (Action.lengthValue a.length)) s)
  | pop (o : Operand Value) (v : Value) (s : Store) : Yields ⟨.pop, o⟩ [v] s (.write s)
  | dup (o : Operand Value) (v : Value) (s : Store) : Yields ⟨.dup, o⟩ [v] s ⟨[v, v], s, .next⟩
  | swap (o : Operand Value) (b a : Value) (s : Store) :
      Yields ⟨.swap, o⟩ [b, a] s ⟨[b, a], s, .next⟩
  | arithmetic {p : Arithmetic} {n : Numeric} {a b x : n.kind.Carrier} (o : Operand Value)
      (s : Store) (result : p.apply n a b = .ok x) :
      Yields ⟨.arithmetic p n, o⟩ [.of n.kind b, .of n.kind a] s (.push (.of n.kind x) s)
  | bitwise (p : Bitwise) (n : Integral) (o : Operand Value) (a b : n.kind.Carrier) (s : Store) :
      Yields ⟨.bitwise p n, o⟩ [.of n.kind b, .of n.kind a] s
        (.push (.of n.kind (p.apply n a b)) s)
  | compare (c : ThreeWay) (o : Operand Value) (a b : c.operand.kind.Carrier) (s : Store) :
      Yields ⟨.compare c, o⟩ [.of c.operand.kind b, .of c.operand.kind a] s
        (.push (.int (orderingValue (c.apply a b))) s)
  | negate (n : Numeric) (o : Operand Value) (a : n.kind.Carrier) (s : Store) :
      Yields ⟨.negate n, o⟩ [.of n.kind a] s (.push (.of n.kind (n.negate a)) s)
  | convert (c : Conversion) (o : Operand Value) (a : c.source.kind.Carrier) (s : Store) :
      Yields ⟨.convert c, o⟩ [.of c.source.kind a] s (.push (.of c.target.kind (c.apply a)) s)
  | shift (d : Shift) (n : Integral) (o : Operand Value) (amount : Int32) (a : n.kind.Carrier)
      (s : Store) :
      Yields ⟨.shift d n, o⟩ [.int amount, .of n.kind a] s
        (.push (.of n.kind (d.apply n a amount)) s)
  | ifZero (c : Condition) (offset : Int16) (a : Int32) (s : Store) :
      Yields ⟨.ifZero c, .branch offset⟩ [.int a] s
        (.leave (if c.tests a then .branch offset else .next) s)
  | ifInt (c : Condition) (offset : Int16) (a b : Int32) (s : Store) :
      Yields ⟨.ifInt c, .branch offset⟩ [.int b, .int a] s
        (.leave (if c.compares a b then .branch offset else .next) s)
  | ifSame (expected : Bool) (offset : Int16) (a b : Reference) (s : Store) :
      Yields ⟨.ifSame expected, .branch offset⟩ [.reference b, .reference a] s
        (.leave (if decide (a = b) == expected then .branch offset else .next) s)
  | ifNull (expected : Bool) (offset : Int16) (r : Reference) (s : Store) :
      Yields ⟨.ifNull expected, .branch offset⟩ [.reference r] s
        (.leave (if decide (r = .null) == expected then .branch offset else .next) s)
  | getstatic {f : FieldRef} {v : Value} {s : Store} (found : s.statics.find? f.name = some v)
      (kind : v.kind = f.kind) : Yields ⟨.getstatic, .field f⟩ [] s (.push v s)
  | putstatic {f : FieldRef} {s : Store} {statics : Statics} (x : f.kind.Carrier)
      (put : s.statics.put f.name (.of f.kind x) = .ok statics) :
      Yields ⟨.putstatic, .field f⟩ [.of f.kind x] s (.write { s with statics := statics })
  | invokestatic (m : MethodRef) (args : List Value) (s : Store) :
      Yields ⟨.invokestatic, .method m⟩ args s (.leave (.invoke m args.reverse) s)
  | returnValue (k : Kind) (o : Operand Value) (x : k.Carrier) (s : Store) :
      Yields ⟨.returnValue k, o⟩ [.of k x] s (.leave (.return (some (.of k x))) s)
  | returnVoid (o : Operand Value) (s : Store) :
      Yields ⟨.returnVoid, o⟩ [] s (.leave (.return none) s)

/-- What follows from arguments that are not refused is what the instruction yields. -/
theorem yields_of_effect {i : Instruction Value} {p : Plan} {args : Arguments p.demand} {s : Store}
    {e : Effect} (hp : i.plan? = some p) (he : p.effect args s = .ok e) :
    i.Yields args.values s e := by
  cases plans_of_plan? hp with
  | load names =>
    obtain ⟨v, held, kind, rfl⟩ := Plan.loading_ok he
    exact .load names held kind
  | store names =>
    obtain ⟨locals, stored, rfl⟩ := Plan.setSlot_ok he
    exact .store args.1 names stored
  | iinc index delta =>
    obtain ⟨n, locals, held, stored, rfl⟩ := Plan.incrementing_ok he
    exact .iinc held stored
  | arrayLoad k o =>
    obtain ⟨a, v, array, declared, element, rfl⟩ := Plan.loadingElement_ok he
    exact .arrayLoad o args.1 array declared element
  | arrayStore k o =>
    obtain ⟨a, a', array, declared, stored, rfl⟩ := Plan.storingElement_ok he
    exact .arrayStore o args.1 args.2.1 array declared stored
  | newarray fits =>
    obtain ⟨nonneg, rfl⟩ := Plan.allocating_ok he
    exact .newarray s fits nonneg
  | anewarray o =>
    obtain ⟨nonneg, rfl⟩ := Plan.allocating_ok he
    exact .anewarray o s nonneg
  | arraylength o =>
    obtain ⟨a, array, rfl⟩ := Plan.measuring_ok he
    exact .arraylength o array
  | arithmetic a n o =>
    obtain ⟨x, result, rfl⟩ := Plan.binary_ok he
    exact .arithmetic o s result
  | bitwise b n o =>
    cases he
    exact .bitwise b n o args.2.1 args.1 s
  | compare c o =>
    cases he
    exact .compare c o args.2.1 args.1 s
  | getstatic f =>
    obtain ⟨v, found, kind, rfl⟩ := Plan.getting_ok he
    exact .getstatic found kind
  | putstatic f =>
    obtain ⟨statics, put, rfl⟩ := Plan.putting_ok he
    exact .putstatic args.1 put
  | bipush fits | sipush fits | ldc fits | ldcWide fits | ldc2 fits =>
    cases he
    constructor
    exact fits
  | _ =>
    cases he
    constructor

end Instruction

end StackMachine
