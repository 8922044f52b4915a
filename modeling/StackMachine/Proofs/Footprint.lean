import StackMachine.Proofs.Kinding
import StackMachine.Proofs.Stepping

/-!
# What a completed instruction has done

The signature of an instruction tells what becomes of the operand stack. Its footprint
tells what else may be written: at most one slot, one element, one static field or one
new array, and everything outside the footprint stays as it was. Footprints are read off
the opcode and the operand, and what they allow is said position by position, so that a
write to another place is not hidden in an update function.
-/

namespace StackMachine

/-- The slots differ from others in one place at most, which holds a given value. -/
structure Locals.ReplacedAt (l l' : Locals) (index : UInt16) (v : Value) : Prop where
  length : l'.length = l.length
  written : l'.slots[index.toNat]? = some v
  other : ∀ n ≠ index.toNat, l'.slots[n]? = l.slots[n]?

/-- The value of the element at a position, if there is such a position. -/
def ArrayObject.element? (a : ArrayObject) (n : Nat) : Option Value :=
  if h : n < a.length then some (a.get ⟨n, h⟩) else none

/-- An array differs from another in one element at most, which is what becomes of a given
value in storage. -/
structure ArrayObject.ReplacedAt (a a' : ArrayObject) (index : Int32) (v : Value) : Prop where
  declared : a'.declared = a.declared
  kind : a'.storage.kind = a.storage.kind
  length : a'.length = a.length
  inside : 0 ≤ index.toInt ∧ index.toInt < a.length
  written : a'.element? index.toInt.toNat = (a.storage.kind.narrow? v).map a.storage.kind.widen
  other : ∀ n ≠ index.toInt.toNat, a'.element? n = a.element? n

/-- The objects differ from others at one reference at most. -/
def Heap.ReplacedAt (h h' : Heap) (r : Reference) : Prop := ∀ r' ≠ r, h'.object? r' = h.object? r'

/-- The static fields differ from others in one at most, which there was before, and which
holds a given value of its kind. -/
structure Statics.ReplacedAt (s s' : Statics) (name : String) (v : Value) : Prop where
  kind : ∃ w, s.find? name = some w ∧ w.kind = v.kind
  written : s'.find? name = some v
  other : ∀ n ≠ name, s'.find? n = s.find? n

/-- What an instruction may write besides the operand stack. -/
inductive Footprint where
  | nothing
  /-- A slot takes the argument. -/
  | slot (index : UInt16)
  /-- The int in a slot is increased. -/
  | increment (index : UInt16) (delta : Int16)
  /-- An element of the array among the arguments takes another of them. -/
  | element (k : ElementKind)
  /-- A static field takes the argument. -/
  | field (name : String)
  /-- A new array of the length in the argument. -/
  | array (k : ElementKind)

/-- What an instruction whose operand fits may write. -/
def Instruction.footprint (i : Instruction Value) : Footprint :=
  match i.opcode with
  | .store _ slot => (i.slot? slot).elim .nothing .slot
  | .iinc =>
    match i.operand with
    | .increment index delta => .increment index delta
    | _ => .nothing
  | .arrayStore k => .element k
  | .putstatic => i.field?.elim .nothing fun f => .field f.name
  | .newarray => i.primitive?.elim .nothing .array
  | .anewarray => .array .reference
  | _ => .nothing

/-- What an instruction leaves without computing anything: a constant, what it has read, or
what it has taken, all of it with the topmost value first. -/
def Instruction.copies? (i : Instruction Value) (s : Store) (taken : List Value) :
    Option (List Value) :=
  match i.opcode with
  | .constant c => some [c.value]
  | .bipush => (i.immediate? (-128) 127).map fun n => [.int n]
  | .sipush => (i.immediate? (-32768) 32767).map fun n => [.int n]
  | .ldc | .ldcWide => (i.constant? false).map fun v => [v]
  | .ldc2 => (i.constant? true).map fun v => [v]
  | .load _ slot => (i.slot? slot).bind fun index => (s.locals.slots[index.toNat]?).map ([·])
  | .getstatic => i.field?.bind fun f => (s.statics.find? f.name).map ([·])
  | .dup => some (taken ++ taken)
  | .swap => some taken.reverse
  | _ => none

/-- A store has become another one within a footprint, when values were taken off the
stack, the topmost first, and others were pushed. -/
def Footprint.Covers (taken pushed : List Value) (s s' : Store) : Footprint → Prop
  | nothing => s' = s
  | slot index =>
    s'.statics = s.statics ∧ s'.heap = s.heap ∧
      ∃ v, taken = [v] ∧ s.locals.ReplacedAt s'.locals index v
  | increment index delta =>
    s'.statics = s.statics ∧ s'.heap = s.heap ∧
      ∃ n, s.locals.load index = .ok (.int n) ∧
        s.locals.ReplacedAt s'.locals index (.int (StackMachine.increment n delta))
  | element k =>
    s'.locals = s.locals ∧ s'.statics = s.statics ∧
      ∃ v index r a a', taken = [v, .int index, .reference r] ∧
        s.heap.array? r = some a ∧ a.declared = k ∧ s'.heap.array? r = some a' ∧
        a.ReplacedAt a' index v ∧ s.heap.ReplacedAt s'.heap r
  | field name =>
    s'.locals = s.locals ∧ s'.heap = s.heap ∧
      ∃ v, taken = [v] ∧ s.statics.ReplacedAt s'.statics name v
  | array k =>
    s'.locals = s.locals ∧ s'.statics = s.statics ∧
      ∃ n r a, taken = [.int n] ∧ pushed = [.reference r] ∧ r ≠ .null ∧
        s.heap.object? r = none ∧ s'.heap.array? r = some a ∧
        a.declared = k ∧ a.storage.kind = k ∧ (a.length : Int) = n.toInt ∧
        (∀ j, a.get j = k.widen k.zero) ∧ s.heap.ReplacedAt s'.heap r

/-- The control event of an instruction which leads where a flow says, when values were
taken off the stack, the topmost first. -/
def Flow.Emits (pc : Nat) (taken : List Value) (c : Control) : Flow → Prop
  | .next => c = .next
  | .branch offset => c = .next ∨ c = .branch pc offset
  | .call m => c = .invoke m taken.reverse ∧ taken.reverse.map Value.kind = m.params
  | .return k => c = .return taken.head? ∧ taken.head?.map Value.kind = k

/-- What an instruction with a signature has done, when it has taken values off the stack and
put others in their place, the topmost first, on what lies beneath them. -/
structure Instruction.Accounts (i : Instruction Value) (signature : Signature)
    (taken pushed below : List Value) (m : Machine) (c : Control) (m' : Machine) : Prop where
  signature_eq : i.signature? = some signature
  found : m.frame.stack = taken ++ below
  left : m'.frame.stack = pushed ++ below
  /-- The values that were taken are of the kinds in the signature. -/
  takes : signature.takes.take? (m.frame.stack.map Value.kind) =
    some (taken.map Value.kind, below.map Value.kind)
  /-- The values that were pushed are of the kinds in the signature. -/
  gives : pushed.map Value.kind = signature.gives (taken.map Value.kind)
  copies : ∀ vs ∈ i.copies? m.store taken, pushed = vs
  pc : m'.frame.pc = m.frame.pc + 1
  maxStack : m'.frame.maxStack = m.frame.maxStack
  slots : m'.frame.locals.length = m.frame.locals.length
  footprint : i.footprint.Covers taken pushed m.store m'.store
  control : i.flow.Emits m.frame.pc taken c

/-! ### Replacing one thing -/

/-- A store replaces one slot. -/
theorem Locals.replacedAt_of_store {l l' : Locals} {index : UInt16} {v : Value}
    (h : l.store index v = .ok l') : l.ReplacedAt l' index v := by
  unfold store at h
  split at h
  · rename_i hi
    cases h
    refine ⟨by simp [length], by simp [hi], fun n hn => ?_⟩
    exact Array.getElem?_set_ne hi hn.symm
  · cases h

/-- What is loaded is in the slot. -/
theorem Locals.slots_of_load {l : Locals} {index : UInt16} {v : Value}
    (h : l.load index = .ok v) : l.slots[index.toNat]? = some v := by
  unfold load at h
  split at h <;> cases h
  assumption

/-- A put replaces one field, which was there with the kind of the value. -/
theorem Statics.replacedAt_of_put {s s' : Statics} {name : String} {v : Value}
    (h : s.put name v = .ok s') : s.ReplacedAt s' name v := by
  obtain ⟨w, hw, hk, -⟩ := exists_of_put h
  have hfind := find?_put h
  exact ⟨⟨w, hw, hk⟩, (hfind name).trans (if_pos rfl), fun n hn => (hfind n).trans (if_neg hn)⟩

namespace ArrayObject

variable {a a' : ArrayObject} {index : Int32} {v : Value}

/-- At a position inside there is an element. -/
theorem element?_of_lt (a : ArrayObject) {n : Nat} (h : n < a.length) :
    a.element? n = some (a.get ⟨n, h⟩) :=
  dif_pos h

/-- At no other position there is one. -/
theorem element?_of_not_lt (a : ArrayObject) {n : Nat} (h : ¬ n < a.length) :
    a.element? n = none :=
  dif_neg h

/-- Replacing an element of the storage changes that element only. -/
theorem element?_set (declared : ElementKind) (s : Storage) (i : Fin s.length)
    (x : s.kind.Carrier) (n : Nat) :
    element? ⟨declared, s.set i x⟩ n =
      if n = i then some (s.kind.widen x) else element? ⟨declared, s⟩ n := by
  by_cases hlt : n < s.length
  · have hget := congrArg (fun y => some (s.kind.widen y)) (s.get_set i ⟨n, hlt⟩ x)
    refine ((element?_of_lt ⟨declared, s.set i x⟩ hlt).trans hget).trans ?_
    by_cases hn : n = i
    · rw [if_pos hn, if_pos (Fin.ext hn.symm)]
    · rw [if_neg hn, if_neg fun he => hn (congrArg Fin.val he).symm]
      exact (element?_of_lt ⟨declared, s⟩ hlt).symm
  · have hn : n ≠ i := fun he => hlt (he ▸ i.isLt)
    rw [if_neg hn, element?_of_not_lt ⟨declared, s⟩ hlt]
    exact element?_of_not_lt ⟨declared, s.set i x⟩ hlt

/-- A store replaces one element by what becomes of the value in storage. -/
theorem replacedAt_of_store (h : a.store index v = .ok a') : a.ReplacedAt a' index v := by
  obtain ⟨i, x, hi, hx, rfl⟩ := store_ok h
  have hset := element?_set a.declared a.storage i x
  unfold position at hi
  split at hi
  · rename_i hinside
    cases hi
    refine ⟨rfl, rfl, rfl, hinside, ?_, fun n hn => ?_⟩
    · rw [hx]
      exact (hset _).trans (if_pos rfl)
    · exact (hset n).trans (if_neg hn)
  · cases hi

end ArrayObject

namespace Heap

/-- Replacing an array leaves the objects at other references alone. -/
theorem object?_setArray_ne (h : Heap) (a : ArrayObject) {r r' : Reference} (hr : r' ≠ r) :
    (h.setArray r a).object? r' = h.object? r' := by
  cases r with
  | null => rfl
  | _ address =>
    cases r' with
    | null => rfl
    | _ address' =>
      have hne : address ≠ address' := fun he => hr (he ▸ rfl)
      exact Array.getElem?_setIfInBounds_ne hne

/-- The array that takes the place of another is found there. -/
theorem array?_setArray {h : Heap} {a a' : ArrayObject} {r : Reference} (ha : h.array? r = some a) :
    (h.setArray r a').array? r = some a' := by
  cases r with
  | null => cases ha
  | _ address =>
    have hlt : address < h.objects.size := by
      refine Nat.lt_of_not_le fun hle => ?_
      have hnone : h.objects[address]? = none := Array.getElem?_eq_none hle
      simp [array?, object?, hnone] at ha
    simp [array?, object?, setArray, hlt]

/-- A new array is found at its reference. -/
theorem array?_alloc (h : Heap) (a : ArrayObject) :
    (h.alloc (.array a)).2.array? (h.alloc (.array a)).1 = some a := by
  simp [array?]

/-- A new object leaves those at other references alone. -/
theorem object?_alloc_ne (h : Heap) (o : Object) {r : Reference} (hr : r ≠ (h.alloc o).1) :
    (h.alloc o).2.object? r = h.object? r := by
  cases r with
  | null => rfl
  | _ address =>
    have hne : address ≠ h.objects.size := fun he => hr (he ▸ rfl)
    simp [alloc, object?, Array.getElem?_push, hne]

/-- There is nothing yet where a new object comes. -/
theorem object?_alloc_fst (h : Heap) (o : Object) : h.object? (h.alloc o).1 = none :=
  Array.getElem?_eq_none (Nat.le_refl _)

end Heap

/-! ### The parts of an account -/

namespace Instruction.Yields

variable {i : Instruction Value} {taken : List Value} {s : Store} {e : Effect}

/-- A new array is the only thing that its creation adds. -/
theorem covers_allocate (k : ElementKind) {size : Int32} (s : Store) (nonneg : 0 ≤ size.toInt) :
    (Footprint.array k).Covers [.int size] (Effect.allocate k size s).pushes.reverse s
      (Effect.allocate k size s).store := by
  refine ⟨rfl, rfl, size, (s.heap.alloc _).1, .zeroed k size.toInt.toNat, rfl, rfl,
    fun h => ?_, s.heap.object?_alloc_fst _, ?_, rfl, rfl, ?_, fun j => ?_,
    fun r' hr' => s.heap.object?_alloc_ne _ hr'⟩
  · cases h
  · exact s.heap.array?_alloc _
  · exact Int.toNat_of_nonneg nonneg
  · exact congrArg k.widen (Storage.get_zeroed k _ j)

/-- What an instruction yields is written within its footprint. -/
theorem covers (h : i.Yields taken s e) :
    i.footprint.Covers taken e.pushes.reverse s e.store := by
  cases h with
  | store x names stored =>
    simp only [footprint, names, Option.elim_some]
    exact ⟨rfl, rfl, _, rfl, Locals.replacedAt_of_store stored⟩
  | iinc held stored => exact ⟨rfl, rfl, _, held, Locals.replacedAt_of_store stored⟩
  | arrayStore o x index array declared stored =>
    exact ⟨rfl, rfl, _, _, _, _, _, rfl, array, declared, Heap.array?_setArray array,
      ArrayObject.replacedAt_of_store stored, fun r' hr' => Heap.object?_setArray_ne _ _ hr'⟩
  | putstatic x put => exact ⟨rfl, rfl, _, rfl, Statics.replacedAt_of_put put⟩
  | newarray s fits nonneg =>
    simp only [footprint, fits, Option.elim_some]
    exact covers_allocate _ s nonneg
  | anewarray o s nonneg => exact covers_allocate _ s nonneg
  | _ => rfl

/-- What an instruction copies is what it leaves. -/
theorem pushes_of_copies? (h : i.Yields taken s e) {vs : List Value}
    (hcopies : i.copies? s taken = some vs) : e.pushes.reverse = vs := by
  cases h with
  | constant | dup | swap =>
    cases hcopies
    rfl
  | bipush s fits | sipush s fits | ldc s fits | ldcWide s fits | ldc2 s fits =>
    simp only [copies?, fits, Option.map_some, Option.some.injEq] at hcopies
    exact hcopies
  | load names held =>
    simp only [copies?, names, Option.bind_some, Locals.slots_of_load held, Option.map_some,
      Option.some.injEq] at hcopies
    exact hcopies
  | getstatic found =>
    simp only [copies?, field?, Option.bind_some, found, Option.map_some,
      Option.some.injEq] at hcopies
    exact hcopies
  | _ => cases hcopies

/-- An instruction that leads into a method names it. -/
theorem eq_of_invoke (h : i.Yields taken s e) {method : MethodRef} {args : List Value}
    (hmove : e.move = .invoke method args) :
    i.opcode = .invokestatic ∧ i.operand = .method method := by
  cases h with
  | invokestatic =>
    cases hmove
    exact ⟨rfl, rfl⟩
  | ifZero | ifInt | ifSame | ifNull =>
    simp only [Effect.leave] at hmove
    split at hmove <;> cases hmove
  | _ => cases hmove

end Instruction.Yields

namespace Plan.Family

variable {p : Plan} {need : Need} {flow : Flow} {args : Arguments p.demand} {s : Store} {e : Effect}

/-- Where arguments are not refused, what they need is there. -/
theorem exists_retype? (h : p.Family need flow) (he : p.effect args s = .ok e) :
    ∃ slots, need.retype? s.statics.kinds s.locals.kinds = some slots := by
  cases h with
  | loading op k index =>
    obtain ⟨v, hv, rfl, -⟩ := loading_ok he
    refine ⟨_, if_pos ?_⟩
    rw [Locals.getElem?_kinds, Locals.slots_of_load hv, Option.map_some]
  | incrementing op index delta =>
    obtain ⟨n, -, hn, -⟩ := incrementing_ok he
    refine ⟨_, if_pos ?_⟩
    rw [Locals.getElem?_kinds, Locals.slots_of_load hn, Option.map_some]
    rfl
  | storing k index =>
    obtain ⟨locals, hl, -⟩ := setSlot_ok he
    have hreplaced := Locals.replacedAt_of_store hl
    have hi := (Array.getElem?_eq_some_iff.1 hreplaced.written).1
    have hlength : locals.slots.size = s.locals.slots.size := hreplaced.length
    refine ⟨_, if_pos ?_⟩
    rw [Locals.kinds, List.length_map, Array.length_toList, ← hlength]
    exact hi
  | getting f =>
    obtain ⟨v, hv, hk, -⟩ := getting_ok he
    refine ⟨_, if_pos ?_⟩
    rw [Statics.kinds, hv, Option.map_some, hk]
  | putting f =>
    obtain ⟨statics, hs, -⟩ := putting_ok he
    obtain ⟨w, hw, hk⟩ := (Statics.replacedAt_of_put hs).kind
    refine ⟨_, if_pos ?_⟩
    rw [Statics.kinds, hw, Option.map_some, hk, Value.kind_of]
  | _ => exact ⟨_, rfl⟩

/-- The control event of an instruction is the one that its flow tells. -/
theorem emits (h : p.Family need flow) (sound : s.heap.Sound) (he : p.effect args s = .ok e)
    (pc : Nat) : flow.Emits pc args.values (e.move.control pc) := by
  obtain ⟨slots, hn⟩ := h.exists_retype? he
  have hmove := (h.kinded hn sound he).move
  -- The move follows the flow. Calls and returns carry arguments besides.
  cases h with
  | calling m =>
    cases he
    have hparams : args.values.map Value.kind = m.params.reverse := Arguments.kinds_values args
    exact ⟨rfl, by rw [List.map_reverse, hparams, List.reverse_reverse]⟩
  | returning k =>
    cases he
    exact ⟨rfl, congrArg some (Value.kind_of k args.1)⟩
  | leaving =>
    cases he
    exact ⟨rfl, rfl⟩
  | branching d test offset =>
    generalize e.move = move at hmove ⊢
    cases hmove
    · exact .inl rfl
    · exact .inr rfl
  | _ =>
    generalize e.move = move at hmove ⊢
    cases hmove
    rfl

end Plan.Family

/-- Arguments on a stack are what a demand takes off it. -/
theorem Arguments.take?_kinds {d : Demand} (args : Arguments d) (below : List Value) :
    d.take? ((args.values ++ below).map Value.kind) =
      some (args.values.map Value.kind, below.map Value.kind) := by
  induction d with
  | nil => rfl
  | cons o d ih =>
    cases o with
    | none =>
      obtain ⟨v, args⟩ := args
      simp only [values, List.cons_append, List.map_cons, Demand.take?, ih args]
      rfl
    | some k =>
      obtain ⟨x, args⟩ := args
      simp only [values, List.cons_append, List.map_cons, Demand.take?, ih args, Value.kind_of]
      simp

/-- No footprint covers a change of the number of slots. -/
theorem Footprint.Covers.length_locals {footprint : Footprint} {taken pushed : List Value}
    {s s' : Store} (h : footprint.Covers taken pushed s s') :
    s'.locals.length = s.locals.length := by
  cases footprint with
  | nothing => rw [show s' = s from h]
  | slot =>
    obtain ⟨-, -, v, -, hreplaced⟩ := h
    exact hreplaced.length
  | increment =>
    obtain ⟨-, -, n, -, hreplaced⟩ := h
    exact hreplaced.length
  | element | field | array => rw [h.1]

/-- An instruction that calls a method names it. -/
theorem Instruction.method_of_invoke {i : Instruction Value} {m m' : Machine}
    {method : MethodRef} {args : List Value} (h : Action.step i m = .ok (.invoke method args) m') :
    i.opcode = .invokestatic ∧ i.operand = .method method := by
  generalize hc : Control.invoke method args = c at h
  cases Action.completes_of_step h with
  | @intro p args' below e plan stack effect room =>
    have hmove : e.move = .invoke method args := by
      generalize e.move = move at hc ⊢
      cases move <;> cases hc
      rfl
    exact (yields_of_effect plan effect).eq_of_invoke hmove

/-! ### The account of a step -/

/-- A step that completes takes from the top of the stack what the signature of the
instruction demands, puts what the signature gives in its place, and moves on to the next
index. It changes neither the depth limit nor the number of slots, and it writes within
the footprint of the instruction only. A call carries the values that were taken as its
arguments, the first one first, and a return the value that was taken. -/
theorem step_accounts {i : Instruction Value} {m m' : Machine} {c : Control}
    (sound : m.heap.Sound) (h : Action.step i m = .ok c m') :
    ∃ signature taken pushed below, i.Accounts signature taken pushed below m c m' := by
  cases Action.completes_of_step h with
  | @intro p args below e plan stack effect room =>
    have hfamily := Instruction.family_of_plan? plan
    obtain ⟨slots, hn⟩ := hfamily.exists_retype? effect
    have hyields := Instruction.yields_of_effect plan effect
    exact ⟨p.signature, args.values, e.pushes.reverse, below, {
      signature_eq := by rw [Instruction.signature?_eq, plan]; rfl
      found := stack
      left := rfl
      takes := stack ▸ args.take?_kinds below
      gives := (hfamily.kinded hn sound effect).pushes
      copies := fun vs hvs => hyields.pushes_of_copies? hvs
      pc := rfl
      maxStack := rfl
      slots := hyields.covers.length_locals
      footprint := hyields.covers
      control := hfamily.emits sound effect m.frame.pc }⟩

/-- Storing into an array of bytes takes all three arguments from a stack with a fourth value,
and is accounted for. -/
theorem step_accounts_bastore :
    let h := (Heap.empty.alloc (.array (.zeroed .byte 2))).2
    let m : Machine :=
      ⟨⟨[.int 300, .int 1, .reference (.to 0), .long 9], .zeroed 3, 5, 4⟩, .empty, h⟩
    let i : Instruction Value := ⟨.arrayStore .byte, .none⟩
    h.Sound ∧ ∃ m', Action.step i m = .ok .next m' ∧
      ∃ signature taken pushed below, i.Accounts signature taken pushed below m .next m' := by
  intro h m i
  have sound : h.Sound := Heap.Sound.empty.alloc rfl
  obtain ⟨m', hm'⟩ : ∃ m', Action.step i m = .ok .next m' := ⟨_, rfl⟩
  exact ⟨sound, m', hm', step_accounts sound hm'⟩

end StackMachine
