import StackMachine.Proofs.Arrays

/-!
# Known references

Instructions move references around and make new ones, but never out of something else.
Given some references that are known, a machine is within them when every reference that
it holds is known, and when known arrays lead to known references only. A step from such
a machine leads to one that is within the same references and those to arrays that the
step has added, and it writes to no object that is not known.

What a step writes is read off its footprint; what it pushes or carries away is read off
its plan.
-/

namespace StackMachine

/-- What a value refers to, if it refers to an object, is known. -/
def Value.Known (K : Reference → Prop) (v : Value) : Prop :=
  ∀ r, v = .reference r → r ≠ .null → K r

/-- The slots hold known references only. -/
def Locals.Within (K : Reference → Prop) (l : Locals) : Prop := ∀ v ∈ l.slots, v.Known K

/-- The static fields hold known references only. -/
def Statics.Within (K : Reference → Prop) (s : Statics) : Prop :=
  ∀ name v, s.find? name = some v → v.Known K

/-- Known arrays hold known references only. -/
def Heap.Closed (K : Reference → Prop) (h : Heap) : Prop :=
  ∀ r a n v, K r → h.array? r = some a → a.element? n = some v → v.Known K

/-- A frame holds known references only. -/
structure Frame.Within (K : Reference → Prop) (f : Frame) : Prop where
  stack : ∀ v ∈ f.stack, v.Known K
  slots : f.locals.Within K

/-- A store leads from known references to known references only. -/
structure Store.Within (K : Reference → Prop) (s : Store) : Prop where
  slots : s.locals.Within K
  fields : s.statics.Within K
  elements : s.heap.Closed K

/-- A machine leads from known references to known references only. -/
structure Machine.Within (K : Reference → Prop) (m : Machine) : Prop where
  frame : m.frame.Within K
  fields : m.statics.Within K
  elements : m.heap.Closed K

/-- Known references, and those to objects that have been added to a heap. -/
def OrAdded (h h' : Heap) (K : Reference → Prop) (r : Reference) : Prop :=
  K r ∨ h.object? r = none ∧ h'.object? r ≠ none

/-- The values that an instruction carries away. -/
def Move.values : Move → List Value
  | invoke _ args => args
  | .return v => v.toList
  | next | branch _ => []

/-- The values in a control event. -/
def Control.values : Control → List Value
  | invoke _ args => args
  | .return v => v.toList
  | next | branch .. => []

variable {K K' : Reference → Prop}

section

variable {v : Value}

/-- What is known stays known when more is. -/
theorem Value.Known.mono (hv : v.Known K) (h : ∀ r, K r → K' r) : v.Known K' :=
  fun r hr hnull => h r (hv r hr hnull)

/-- Only references refer to anything. -/
theorem Value.known_of_kind (h : v.kind ≠ .reference) : v.Known K := by
  rintro r rfl -
  exact absurd rfl h

/-- An int refers to nothing. -/
theorem Value.known_int (n : Int32) : (Value.int n).Known K := known_of_kind nofun

theorem Value.known_null : Value.null.Known K := by
  rintro r hr hnull
  cases hr
  exact absurd rfl hnull

/-- What becomes of a value in an array refers to what the value refers to. -/
theorem ElementKind.known_widen {k : ElementKind} {x : k.Carrier} (hv : v.Known K)
    (h : k.narrow? v = some x) : (k.widen x).Known K := by
  by_cases hk : k = .reference
  · subst hk
    cases v <;> cases h
    exact hv
  · refine Value.known_of_kind ?_
    rw [kind_widen]
    cases k <;> first | exact absurd rfl hk | exact nofun

/-- The elements of a new array refer to nothing. -/
theorem ElementKind.known_zero (k : ElementKind) : (k.widen k.zero).Known K := by
  cases k with
  | reference => exact Value.known_null
  | _ => exact Value.known_of_kind nofun

end

theorem Frame.Within.mono {f : Frame} (hf : f.Within K) (h : ∀ r, K r → K' r) : f.Within K' :=
  ⟨fun v hv => (hf.stack v hv).mono h, fun v hv => (hf.slots v hv).mono h⟩

/-- Where no objects have been added, nothing more is known. -/
theorem orAdded_of_inUse {h h' : Heap} (hinUse : ∀ r, h.object? r = none → h'.object? r = none) :
    OrAdded h h' K = K := by
  funext r
  refine propext ⟨fun hr => ?_, .inl⟩
  rcases hr with hr | ⟨hnone, hsome⟩
  · exact hr
  · exact absurd (hinUse r hnone) hsome

@[simp] theorem orAdded_self (h : Heap) : OrAdded h h K = K := orAdded_of_inUse fun _ hr => hr

/-! ### What is written -/

/-- Slots stay within known references when one of them takes a known value. -/
theorem Locals.Within.replacedAt {l l' : Locals} {index : UInt16} {v : Value}
    (hl : l.Within K) (hv : v.Known K) (h : l.ReplacedAt l' index v) : l'.Within K := by
  intro w hw
  obtain ⟨n, hn⟩ := Array.mem_iff_getElem?.1 hw
  by_cases hindex : n = index.toNat
  · rw [hindex, h.written] at hn
    cases hn
    exact hv
  · rw [h.other n hindex] at hn
    exact hl w (Array.mem_of_getElem? hn)

theorem Statics.Within.replacedAt {s s' : Statics} {name : String} {v : Value}
    (hs : s.Within K) (hv : v.Known K) (h : s.ReplacedAt s' name v) : s'.Within K := by
  intro name' w hw
  by_cases hname : name' = name
  · rw [hname, h.written] at hw
    cases hw
    exact hv
  · rw [h.other name' hname] at hw
    exact hs name' w hw

theorem Heap.array?_congr {h h' : Heap} {r : Reference} (hr : h'.object? r = h.object? r) :
    h'.array? r = h.array? r := by
  rw [array?, array?, hr]

/-- The elements of an array that takes a known value are known if they were. -/
theorem ArrayObject.known_of_replacedAt {a a' : ArrayObject} {index : Int32} {v w : Value}
    {n : Nat} (ha : ∀ n w, a.element? n = some w → w.Known K) (hv : v.Known K)
    (h : a.ReplacedAt a' index v) (hw : a'.element? n = some w) : w.Known K := by
  by_cases hn : n = index.toInt.toNat
  · rw [hn, h.written] at hw
    obtain ⟨x, hx, rfl⟩ := Option.map_eq_some_iff.1 hw
    exact ElementKind.known_widen hv hx
  · rw [h.other n hn] at hw
    exact ha n w hw

/-- Known arrays lead to known references when a known one takes a known value. -/
theorem Heap.Closed.replacedAt {h h' : Heap} {r : Reference} {a a' : ArrayObject}
    {index : Int32} {v : Value} (hh : h.Closed K) (hr : K r) (hv : v.Known K)
    (ha : h.array? r = some a) (ha' : h'.array? r = some a') (helement : a.ReplacedAt a' index v)
    (hother : h.ReplacedAt h' r) : h'.Closed K := by
  intro r' b n w hr' hb hw
  by_cases he : r' = r
  · subst he
    obtain rfl : b = a' := Option.some.inj (hb.symm.trans ha')
    exact ArrayObject.known_of_replacedAt (fun n w => hh r' a n w hr ha) hv helement hw
  · rw [array?_congr (hother r' he)] at hb
    exact hh r' b n w hr' hb hw

/-- A new array leads to nothing, so nothing unknown is reached through it. -/
theorem Heap.Closed.added {h h' : Heap} {r : Reference} {a : ArrayObject} (hh : h.Closed K)
    (hnew : h.object? r = none) (ha : h'.array? r = some a)
    (hzero : ∀ j, a.get j = a.storage.kind.widen a.storage.kind.zero)
    (hother : h.ReplacedAt h' r) : h'.Closed (OrAdded h h' K) := by
  intro r' b n w hr' hb hw
  by_cases he : r' = r
  · subst he
    obtain rfl : b = a := Option.some.inj (hb.symm.trans ha)
    unfold ArrayObject.element? at hw
    split at hw
    · cases hw
      rw [hzero]
      exact ElementKind.known_zero _
    · cases hw
  · rcases hr' with hr' | ⟨hnone, hsome⟩
    · rw [array?_congr (hother r' he)] at hb
      exact (hh r' b n w hr' hb hw).mono fun _ => .inl
    · rw [hother r' he] at hsome
      exact absurd hnone hsome

namespace Footprint.Covers

variable {footprint : Footprint} {taken pushed : List Value} {s s' : Store}

/-- What is written within a footprint is known if it was taken off the stack. -/
theorem within (h : footprint.Covers taken pushed s s') (hs : s.Within K)
    (htaken : ∀ v ∈ taken, v.Known K) : s'.Within (OrAdded s.heap s'.heap K) := by
  cases footprint with
  | nothing =>
    obtain rfl : s' = s := h
    rw [orAdded_self]
    exact hs
  | slot index =>
    obtain ⟨hstatics, hheap, v, rfl, hreplaced⟩ := h
    rw [hheap, orAdded_self]
    exact ⟨hs.slots.replacedAt (htaken v (by simp)) hreplaced, hstatics ▸ hs.fields,
      hheap ▸ hs.elements⟩
  | increment index delta =>
    obtain ⟨hstatics, hheap, n, -, hreplaced⟩ := h
    rw [hheap, orAdded_self]
    exact ⟨hs.slots.replacedAt (Value.known_int _) hreplaced, hstatics ▸ hs.fields,
      hheap ▸ hs.elements⟩
  | element k =>
    obtain ⟨hlocals, hstatics, v, index, r, a, a', rfl, ha, -, ha', helement, hother⟩ := h
    have hr : K r := by
      refine htaken (.reference r) (by simp) r rfl ?_
      rintro rfl
      cases ha
    have hinUse : ∀ r', s.heap.object? r' = none → s'.heap.object? r' = none := by
      intro r' hnone
      rw [hother r', hnone]
      rintro rfl
      rw [Heap.array?_eq_some_iff.1 ha] at hnone
      cases hnone
    rw [orAdded_of_inUse hinUse]
    exact ⟨hlocals ▸ hs.slots, hstatics ▸ hs.fields,
      hs.elements.replacedAt hr (htaken v (by simp)) ha ha' helement hother⟩
  | field name =>
    obtain ⟨hlocals, hheap, v, rfl, hreplaced⟩ := h
    rw [hheap, orAdded_self]
    exact ⟨hlocals ▸ hs.slots, hs.fields.replacedAt (htaken v (by simp)) hreplaced,
      hheap ▸ hs.elements⟩
  | array k =>
    obtain ⟨hlocals, hstatics, n, r, a, -, -, -, hnew, ha, -, hkind, -, hzero, hother⟩ := h
    refine ⟨?_, ?_, hs.elements.added hnew ha (fun j => by rw [hzero, hkind]) hother⟩
    · rw [hlocals]
      exact fun v hv => (hs.slots v hv).mono fun _ => .inl
    · rw [hstatics]
      exact fun name v hv => (hs.fields name v hv).mono fun _ => .inl

/-- An object that is not known is not written to. -/
theorem untouched (h : footprint.Covers taken pushed s s') (htaken : ∀ v ∈ taken, v.Known K)
    {r : Reference} (hr : ¬ OrAdded s.heap s'.heap K r) :
    s'.heap.object? r = s.heap.object? r := by
  obtain ⟨hunknown, hold⟩ := not_or.1 hr
  cases footprint with
  | nothing => rw [show s' = s from h]
  | slot => rw [h.2.1]
  | increment => rw [h.2.1]
  | field => rw [h.2.1]
  | element k =>
    obtain ⟨-, -, v, index, r', a, a', rfl, ha, -, -, -, hother⟩ := h
    refine hother r ?_
    rintro rfl
    refine hunknown (htaken (.reference r) (by simp) r rfl ?_)
    rintro rfl
    cases ha
  | array k =>
    obtain ⟨-, -, n, r', a, -, -, -, hnew, ha, -, -, -, -, hother⟩ := h
    refine hother r ?_
    rintro rfl
    refine hold ⟨hnew, ?_⟩
    rw [Heap.array?_eq_some_iff.1 ha]
    exact nofun

end Footprint.Covers

/-! ### What is pushed and carried away -/

section

variable {i : Instruction Value} {p : Plan} {args : Arguments p.demand} {s : Store} {e : Effect}

/-- A constant operand is what it is found to be. -/
theorem Instruction.operand_of_constant? {wide : Bool} {v : Value}
    (h : i.constant? wide = some v) : i.operand = .constant v := by
  unfold constant? at h
  split at h
  · rename_i v' hoperand
    split at h <;> cases h
    exact hoperand
  · cases h

/-- No small constant refers to an object. -/
theorem SmallConstant.known_value (c : SmallConstant) : c.value.Known K := by
  cases c with
  | null => exact Value.known_null
  | _ => exact Value.known_of_kind nofun

/-- What is computed is no reference. -/
theorem Value.known_of (k : Kind) (x : k.Carrier) (hk : k ≠ .reference) : (Value.of k x).Known K :=
  known_of_kind (by rwa [kind_of])

/-- What is loaded from a slot is known. -/
theorem Locals.Within.load {l : Locals} {index : UInt16} {v : Value} (hl : l.Within K)
    (h : l.load index = .ok v) : v.Known K :=
  hl v (Array.mem_of_getElem? (slots_of_load h))

/-- What is loaded from a known array is known. -/
theorem Heap.Closed.load {h : Heap} {r : Reference} {a : ArrayObject} {index : Int32} {v : Value}
    (hh : h.Closed K) (hr : (Value.reference r).Known K) (ha : h.array? r = some a)
    (hv : a.load index = .ok v) : v.Known K := by
  obtain ⟨j, -, rfl⟩ := ArrayObject.load_ok hv
  refine hh r a j _ (hr r rfl ?_) ha (a.element?_of_lt j.isLt)
  rintro rfl
  cases ha

namespace Instruction.Yields

variable {i : Instruction Value} {taken : List Value} {s : Store} {e : Effect}

/-- An instruction pushes what it knows, or a new array. -/
theorem pushes_known_or_allocates (h : i.Yields taken s e) (hs : s.Within K)
    (htaken : ∀ v ∈ taken, v.Known K) (hconstant : ∀ v, i.operand = .constant v → v.Known K) :
    (∀ v ∈ e.pushes, v.Known K) ∨ ∃ k size, e = .allocate k size s := by
  cases h with
  | newarray | anewarray => exact .inr ⟨_, _, rfl⟩
  | constant c => exact .inl (List.forall_mem_singleton.2 c.known_value)
  | bipush | sipush | compare | arraylength =>
    exact .inl (List.forall_mem_singleton.2 (Value.known_int _))
  | ldc s fits | ldcWide s fits | ldc2 s fits =>
    exact .inl (List.forall_mem_singleton.2 (hconstant _ (operand_of_constant? fits)))
  | load names held => exact .inl (List.forall_mem_singleton.2 (hs.slots.load held))
  | getstatic found => exact .inl (List.forall_mem_singleton.2 (hs.fields _ _ found))
  | arrayLoad o index array declared element =>
    have hr := htaken _ (.tail _ (.head _))
    exact .inl (List.forall_mem_singleton.2 (hs.elements.load hr array element))
  | dup => exact .inl (List.forall_mem_cons.2 ⟨htaken _ (.head _), htaken⟩)
  | swap => exact .inl htaken
  | @arithmetic _ n | bitwise _ n | negate n | shift _ n =>
    exact .inl (List.forall_mem_singleton.2 (Value.known_of _ _ (by cases n <;> exact nofun)))
  | convert c =>
    exact .inl (List.forall_mem_singleton.2 (Value.known_of _ _ (by cases c <;> exact nofun)))
  | _ => exact .inl (List.forall_mem_nil _)

/-- An instruction pushes what it knows and what it has created. -/
theorem pushes_known (h : i.Yields taken s e) (hs : s.Within K)
    (htaken : ∀ v ∈ taken, v.Known K) (hconstant : ∀ v, i.operand = .constant v → v.Known K) :
    ∀ v ∈ e.pushes, v.Known (OrAdded s.heap e.store.heap K) := by
  rcases h.pushes_known_or_allocates hs htaken hconstant with hknown | ⟨k, size, rfl⟩
  · exact fun v hv => (hknown v hv).mono fun _ => .inl
  · intro v hv r hr _
    cases List.mem_singleton.1 hv
    cases hr
    have hnew := s.heap.object?_alloc (.array (.zeroed k size.toInt.toNat))
    refine .inr ⟨s.heap.object?_alloc_fst (.array _), fun hnone => ?_⟩
    cases hnew.symm.trans hnone

/-- An instruction carries away arguments only. -/
theorem values_known (h : i.Yields taken s e) (htaken : ∀ v ∈ taken, v.Known K) :
    ∀ v ∈ e.move.values, v.Known K := by
  cases h with
  | invokestatic => exact fun v hv => htaken v (List.mem_reverse.1 hv)
  | returnValue => exact htaken
  | ifZero | ifInt | ifSame | ifNull =>
    simp only [Effect.leave]
    split <;> exact List.forall_mem_nil _
  | _ => exact List.forall_mem_nil _

end Instruction.Yields

end

/-! ### One step -/

/-- What a step leaves behind, whether it completes or fails. -/
inductive Leaves (i : Instruction Value) (m : Machine) : Machine → Prop where
  /-- Nothing has been written, and values were taken off the stack at most. -/
  | untouched {stack : List Value} (taken : stack ⊆ m.frame.stack) : Leaves i m (m.withStack stack)
  /-- All has been written that was to be, and some values were pushed of those that were
  to be. -/
  | written {p : Plan} {args : Arguments p.demand} {below pushed : List Value} {e : Effect}
      {m' : Machine} (plan : i.plan? = some p) (stack : m.frame.stack = args.values ++ below)
      (effect : p.effect args m.store = .ok e) (store : m'.store = e.store)
      (left : m'.frame.stack = pushed.reverse ++ below) (some_of : pushed ⊆ e.pushes) :
      Leaves i m m'

section

variable {i : Instruction Value} {m : Machine}

/-- Whatever a step leaves behind is what it found or what it has written. -/
theorem Action.leaves_of_step (i : Instruction Value) (m : Machine) :
    Leaves i m (Machine.leftBy (step i m)) := by
  rcases step_cases i m with ⟨c, m', hstep, hcompletes⟩ | ⟨e, m', hstep, hfails⟩
  · rw [hstep]
    cases hcompletes with
    | intro plan stack effect => exact .written plan stack effect rfl rfl fun _ => id
  · rw [hstep]
    cases hfails with
    | operand => exact .untouched (List.Subset.refl m.frame.stack)
    | argument => exact .untouched (List.drop_subset ..)
    | refused plan stack => exact .untouched (stack ▸ List.subset_append_right ..)
    | overflow plan stack effect =>
      exact .written plan stack effect rfl rfl (List.take_subset ..)

theorem Machine.Within.store (hm : m.Within K) : m.store.Within K :=
  ⟨hm.frame.slots, hm.fields, hm.elements⟩

/-- What is taken off the stack of such a machine is known, and so is what lies beneath. -/
theorem Machine.Within.of_append {taken below : List Value} (hm : m.Within K)
    (h : m.frame.stack = taken ++ below) :
    (∀ v ∈ taken, v.Known K) ∧ ∀ v ∈ below, v.Known K :=
  List.forall_mem_append.1 (h ▸ hm.frame.stack)

/-- A step leaves a machine within known references and those to arrays that it has added,
whether it completes or fails. -/
theorem Action.within_of_step (hm : m.Within K)
    (hconstant : ∀ v, i.operand = .constant v → v.Known K) :
    (Machine.leftBy (step i m)).Within (OrAdded m.heap (Machine.leftBy (step i m)).heap K) := by
  have hleaves := leaves_of_step i m
  generalize Machine.leftBy (step i m) = m' at hleaves ⊢
  cases hleaves with
  | untouched taken =>
    change Machine.Within (OrAdded m.heap m.heap K) _
    rw [orAdded_self]
    exact ⟨⟨fun v hv => hm.frame.stack v (taken hv), hm.frame.slots⟩, hm.fields, hm.elements⟩
  | @written p args below pushed e m' plan stack effect store left some_of =>
    obtain ⟨hargs, hbelow⟩ := hm.of_append stack
    have hs := (Instruction.yields_of_effect plan effect).covers.within hm.store hargs
    have hpushes := (Instruction.yields_of_effect plan effect).pushes_known hm.store hargs hconstant
    rw [← store] at hs hpushes
    refine ⟨⟨fun v hv => ?_, hs.slots⟩, hs.fields, hs.elements⟩
    rw [left] at hv
    rcases List.mem_append.1 hv with hv | hv
    · exact hpushes v (some_of (List.mem_reverse.1 hv))
    · exact (hbelow v hv).mono fun _ => .inl

/-- A step does not write to an object that is not known. -/
theorem Action.untouched_of_step {r : Reference} (hm : m.Within K)
    (hr : ¬ OrAdded m.heap (Machine.leftBy (step i m)).heap K r) :
    (Machine.leftBy (step i m)).heap.object? r = m.heap.object? r := by
  have hleaves := leaves_of_step i m
  generalize Machine.leftBy (step i m) = m' at hleaves hr ⊢
  cases hleaves with
  | untouched => rfl
  | @written p args below pushed e m' plan stack effect store =>
    have hheap : m'.heap = e.store.heap := congrArg Store.heap store
    rw [hheap] at hr ⊢
    exact (Instruction.yields_of_effect plan effect).covers.untouched (hm.of_append stack).1 hr

/-- The values in the control event of a step were known. -/
theorem Action.values_known_of_step {c : Control} {m' : Machine} (hm : m.Within K)
    (h : step i m = .ok c m') : ∀ v ∈ c.values, v.Known K := by
  cases completes_of_step h with
  | @intro p args below e plan stack effect =>
    have hvalues := (Instruction.yields_of_effect plan effect).values_known (hm.of_append stack).1
    cases hmove : e.move <;> rw [hmove] at hvalues <;> exact hvalues

end

end StackMachine
