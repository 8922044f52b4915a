import StackMachine.Invocation
import StackMachine.Proofs.Effects

/-!
# Kinds of programs

A kind state gives the kinds on the operand stack and in the slots. A program is well
kinded when every instruction finds in the state at its index what it needs, and leads
to the states at the indices where it may lead. Nothing here executes an instruction:
the kinds follow from opcodes and operands alone.

The second half of the file is about single instructions. On a store of the kinds that
an instruction needs, what follows from its arguments is again of the kinds foretold,
and if the arguments are refused, it is for a reason that kinds say nothing about.
-/

namespace StackMachine

/-- The kinds in the slots. -/
def Locals.kinds (l : Locals) : List Kind := l.slots.toList.map Value.kind

/-- The kinds in the slots of a new activation, by the kinds of its arguments. -/
def Locals.ofKinds (params : List Kind) : List Kind :=
  params ++ List.replicate (minimum - params.length) .int

/-- The kinds of the static fields that there are. -/
def Statics.kinds (s : Statics) (name : String) : Option Kind := (s.find? name).map Value.kind

/-- Every array stores elements of the kind that it was created with. -/
def Heap.Sound (h : Heap) : Prop := ∀ r a, h.array? r = some a → a.storage.kind = a.declared

/-- The kinds in a frame. -/
structure KindState where
  /-- The kinds on the operand stack, the topmost first. -/
  stack : List Kind
  /-- The kinds in the slots. -/
  slots : List Kind
deriving DecidableEq

/-- The kinds in a frame. -/
def Frame.kinds (f : Frame) : KindState := ⟨f.stack.map Value.kind, f.locals.kinds⟩

/-- The kinds in the slots after an instruction, if what it needs is there. -/
def Need.retype? (fields : String → Option Kind) (slots : List Kind) : Need → Option (List Kind)
  | nothing => some slots
  | slot index k => if slots[index.toNat]? = some k then some slots else none
  | target index k =>
    if index.toNat < slots.length then some (slots.set index.toNat k) else none
  | field f => if fields f.name = some f.kind then some slots else none

/-- The result that a call leaves on the stack. -/
def Flow.result : Flow → List Kind
  | call m => m.result.toList
  | _ => []

/-- What an activation returns, if it returns here, is of a kind. -/
def Flow.Returns (result : Option Kind) : Flow → Prop
  | .return k => k = result
  | _ => True

/-- The kinds after an instruction and, if it is a call, after the call. There are none
unless the operand fits, what the instruction takes and needs is there, and the stack
has room for what is pushed. -/
def Instruction.after? (fields : String → Option Kind) (maxStack : Nat)
    (i : Instruction Value) (s : KindState) : Option KindState := do
  let signature ← i.signature?
  let (taken, rest) ← signature.takes.take? s.stack
  let slots ← i.need.retype? fields s.slots
  let pushed := i.flow.result ++ signature.gives taken
  if pushed = [] ∨ rest.length + pushed.length ≤ maxStack then some ⟨pushed ++ rest, slots⟩
  else none

/-- Methods, what is known about the kinds of static fields, and kind states for the
methods. -/
structure Program where
  /-- The methods. -/
  methods : Methods
  /-- The kinds of the static fields. -/
  fields : String → Option Kind
  /-- The depth that the stack of every activation may reach. -/
  maxStack : Nat
  /-- The state at each index of a method's block. -/
  states : String → List KindState

namespace Program

/-- A method can be called: it is known, it starts from its arguments, and it returns
what its descriptor says. -/
def Callable (P : Program) (m : MethodRef) : Prop :=
  ∃ body ∈ P.methods.find? m.name,
    (P.states m.name).head? = some ⟨[], Locals.ofKinds m.params⟩ ∧
      ∀ i ∈ body, i.flow.Returns m.result

/-- The state that an instruction leaves is the state wherever it may lead. -/
def Leads (P : Program) (states : List KindState) (n : Nat) (s : KindState) : Flow → Prop
  | .next => states[n + 1]? = some s
  | .branch offset =>
    states[n + 1]? = some s ∧
      0 ≤ n + offset.toInt ∧ states[(n + offset.toInt).toNat]? = some s
  | .call m => states[n + 1]? = some s ∧ P.Callable m
  | .return _ => True

/-- A block agrees with the states at its indices. -/
structure Kinded (P : Program) (block : Block) (states : List KindState) : Prop where
  /-- There is a state at each index. -/
  length_eq : states.length = block.length
  /-- Every instruction leads from the state at its index to the states that follow. -/
  leads : ∀ n < block.length, ∀ i ∈ block[n]?, ∀ s ∈ states[n]?,
    ∃ t ∈ i.after? P.fields P.maxStack s, P.Leads states n t i.flow

/-- Every method agrees with its states. -/
def WellKinded (P : Program) : Prop :=
  ∀ name body, P.methods.find? name = some body → P.Kinded body (P.states name)

instance (result : Option Kind) : DecidablePred (Flow.Returns result)
  | .return k => inferInstanceAs (Decidable (k = result))
  | .next | .branch _ | .call _ => isTrue trivial

instance (P : Program) : DecidablePred P.Callable :=
  fun _ => inferInstanceAs (Decidable (∃ _ ∈ _, _))

instance (P : Program) (states : List KindState) (n : Nat) (s : KindState) :
    DecidablePred (P.Leads states n s)
  | .next => inferInstanceAs (Decidable (_ = _))
  | .branch _ => inferInstanceAs (Decidable (_ ∧ _ ∧ _))
  | .call _ => inferInstanceAs (Decidable (_ ∧ _))
  | .return _ => isTrue trivial

instance (P : Program) (block : Block) (states : List KindState) :
    Decidable (P.Kinded block states) :=
  decidable_of_iff
    (states.length = block.length ∧ ∀ n < block.length, ∀ i ∈ block[n]?, ∀ s ∈ states[n]?,
      ∃ t ∈ i.after? P.fields P.maxStack s, P.Leads states n t i.flow)
    ⟨fun h => ⟨h.1, h.2⟩, fun h => ⟨h.length_eq, h.leads⟩⟩

/-- A program is well kinded when all its bodies are, those out of reach included. -/
theorem wellKinded_of_bodies {P : Program}
    (h : ∀ entry ∈ P.methods.bodies, P.Kinded entry.2 (P.states entry.1)) : P.WellKinded := by
  intro name body hbody
  obtain ⟨before, after, hbodies, -⟩ := List.lookup_eq_some_iff.1 hbody
  exact h (name, body) (hbodies ▸ List.mem_append_right before (List.mem_cons_self ..))

/-- What activations share is as the program expects it. -/
structure Shared (P : Program) (m : Machine) : Prop where
  /-- The static fields are of the kinds that they are known to have. -/
  statics : m.statics.kinds = P.fields
  /-- Every array stores elements of its own kind. -/
  heap : m.heap.Sound

/-- The running activation is in a state. -/
structure Agrees (P : Program) (s : KindState) (m : Machine) : Prop extends P.Shared m where
  /-- The values on the stack and in the slots are of the kinds in the state. -/
  kinds : m.frame.kinds = s
  /-- The stack may become as deep as that of every other activation. -/
  maxStack : m.frame.maxStack = P.maxStack

end Program

/-- A cause that depends on more than the kinds of values. -/
def Cause.isDynamic : Cause → Bool
  | fault .divideByZero | fault (.arrayIndex ..) | nullReference | notAnArray _
  | arrayKindMismatch .. | negativeArraySize _ => true
  | _ => false

/-- An error that depends on more than the kinds of values. -/
def InvocationError.isDynamic : InvocationError → Bool
  | failure e => e.cause.isDynamic
  | tooManyBranches | tooManyCalls => true
  | _ => false

namespace Locals

variable {l l' : Locals} {index : UInt16} {v : Value} {k : Kind}

/-- The kinds of slots are found where their values are. -/
theorem getElem?_kinds (l : Locals) (n : Nat) : l.kinds[n]? = (l.slots[n]?).map Value.kind := by
  simp [kinds]

/-- A slot with a kind can be loaded, and its value is of the kind. -/
theorem load_of_kinds (h : l.kinds[index.toNat]? = some k) :
    ∃ v, l.load index = .ok v ∧ v.kind = k := by
  rw [getElem?_kinds] at h
  obtain ⟨v, hv, hk⟩ := Option.map_eq_some_iff.1 h
  exact ⟨v, by rw [load, hv], hk⟩

/-- A slot that is there can be stored into. -/
theorem store_of_kinds (v : Value) (h : index.toNat < l.kinds.length) :
    ∃ l', l.store index v = .ok l' := by
  have hi : index.toNat < l.slots.size := by simpa [kinds] using h
  exact ⟨_, dif_pos hi⟩

/-- Storing a value changes the kind of its slot only. -/
theorem kinds_store (h : l.store index v = .ok l') :
    l'.kinds = l.kinds.set index.toNat v.kind := by
  unfold store at h
  split at h
  · cases h
    simp [kinds, List.map_set]
  · cases h

/-- The kinds of new slots are those of the arguments, padded. -/
theorem kinds_ofArguments (args : List Value) :
    (ofArguments args).kinds = ofKinds (args.map Value.kind) := by
  simp [kinds, ofArguments, ofKinds, Value.kind]

end Locals

/-- A put changes no kinds of fields. -/
theorem Statics.kinds_put {s t : Statics} {name : String} {v : Value}
    (h : s.put name v = .ok t) : t.kinds = s.kinds := by
  obtain ⟨w, hw, hk, -⟩ := exists_of_put h
  funext other
  unfold kinds
  rw [find?_put h]
  split
  · rename_i ho
    rw [ho, hw, Option.map_some, Option.map_some, hk]
  · rfl

namespace Heap.Sound

variable {h : Heap} {a : ArrayObject}

theorem empty : Heap.empty.Sound := by
  rintro (_ | address) a ha
  · cases ha
  · simp [Heap.empty, array?, object?] at ha

/-- A new array that stores what it is declared to keeps the heap sound. -/
theorem alloc (hs : h.Sound) (ha : a.storage.kind = a.declared) :
    (h.alloc (.array a)).2.Sound := by
  rintro (_ | address) b hb
  · cases hb
  · simp only [Heap.alloc, array?, object?, Array.getElem?_push] at hb
    by_cases hn : address = h.objects.size
    · simp only [hn, if_true, Option.some.injEq] at hb
      exact hb ▸ ha
    · rw [if_neg hn] at hb
      exact hs (.to address) b hb

theorem setArray (hs : h.Sound) (ha : a.storage.kind = a.declared) (r : Reference) :
    (h.setArray r a).Sound := by
  rcases r with _ | written
  · exact hs
  · rintro (_ | address) b hb
    · cases hb
    · simp only [Heap.setArray, array?, object?, Array.getElem?_setIfInBounds] at hb
      by_cases hn : written = address
      · subst hn
        by_cases hl : written < h.objects.size
        · simp only [hl, if_true, Option.some.injEq] at hb
          exact hb ▸ ha
        · simp [hl] at hb
      · rw [if_neg hn] at hb
        exact hs (.to address) b hb

end Heap.Sound

/-- A store changes no kinds of an array. -/
theorem ArrayObject.sound_store {a a' : ArrayObject} {index : Int32} {v : Value}
    (h : a.store index v = .ok a') (ha : a.storage.kind = a.declared) :
    a'.storage.kind = a'.declared := by
  obtain ⟨i, x, -, -, rfl⟩ := store_ok h
  exact ha

/-- Only division by zero makes arithmetic fail. -/
theorem Arithmetic.apply_error {o : Arithmetic} {n : Numeric} {a b : n.Carrier} {f : Fault}
    (h : o.apply n a b = .error f) : f = .divideByZero := by
  have hint {a b : Int32} (h : o.onInt a b = .error f) : f = .divideByZero := by
    cases o with
    | add | sub | mul => cases h
    | div | rem =>
      simp only [onInt] at h
      split at h <;> cases h
      rfl
  have hlong {a b : Int64} (h : o.onLong a b = .error f) : f = .divideByZero := by
    cases o with
    | add | sub | mul => cases h
    | div | rem =>
      simp only [onLong] at h
      split at h <;> cases h
      rfl
  cases n with
  | int => exact hint h
  | long => exact hlong h
  | float | double => cases h

/-- Values taken as demanded are of the demanded kinds. -/
theorem Arguments.kinds_values {ks : List Kind} (args : Arguments (ks.map some)) :
    args.values.map Value.kind = ks := by
  induction ks with
  | nil => rfl
  | cons k ks ih =>
    obtain ⟨x, args⟩ := args
    simp only [List.map_cons, values, Value.kind_of, ih args]

/-- A move is one that a flow allows. -/
inductive Move.Follows : Flow → Move → Prop where
  | next : Follows .next .next
  | untaken (offset : Int16) : Follows (.branch offset) .next
  | taken (offset : Int16) : Follows (.branch offset) (.branch offset)
  | call {m : MethodRef} {args : List Value} (kinds : args.map Value.kind = m.params) :
      Follows (.call m) (.invoke m args)
  | return (v : Option Value) : Follows (.return (v.map Value.kind)) (.return v)

/-- An effect is of the kinds foretold: `gives` on the stack, `slots` in the slots. -/
structure Effect.Kinded (fields : String → Option Kind) (gives slots : List Kind) (flow : Flow)
    (e : Effect) : Prop where
  pushes : e.pushes.reverse.map Value.kind = gives
  locals : e.store.locals.kinds = slots
  statics : e.store.statics.kinds = fields
  heap : e.store.heap.Sound
  move : e.move.Follows flow

section

variable {fields : String → Option Kind} {slots slots' : List Kind}

/-- A slot that is read is there, and it keeps its kind. -/
private theorem slot_of_retype? {index : UInt16} {k : Kind}
    (h : (Need.slot index k).retype? fields slots = some slots') :
    slots[index.toNat]? = some k ∧ slots' = slots := by
  simp only [Need.retype?] at h
  split at h
  · cases h
    exact ⟨‹_›, rfl⟩
  · cases h

/-- A slot that is written is there, and it has the new kind afterwards. -/
private theorem target_of_retype? {index : UInt16} {k : Kind}
    (h : (Need.target index k).retype? fields slots = some slots') :
    index.toNat < slots.length ∧ slots' = slots.set index.toNat k := by
  simp only [Need.retype?] at h
  split at h
  · cases h
    exact ⟨‹_›, rfl⟩
  · cases h

/-- A field that is named is there with its kind, and no slots change. -/
private theorem field_of_retype? {f : FieldRef}
    (h : (Need.field f).retype? fields slots = some slots') :
    fields f.name = some f.kind ∧ slots' = slots := by
  simp only [Need.retype?] at h
  split at h
  · cases h
    exact ⟨‹_›, rfl⟩
  · cases h

end

namespace Plan.Family

variable {p : Plan} {need : Need} {flow : Flow} {args : Arguments p.demand} {s : Store}
  {slots : List Kind}

/-- What follows from arguments leads where the flow allows. -/
theorem follows (h : p.Family need flow) {e : Effect} (he : p.effect args s = .ok e) :
    e.move.Follows flow := by
  cases h with
  | pushing | dropping | duplicating | exchanging | negate | convert | shifting =>
    cases he
    exact .next
  | loading =>
    obtain ⟨v, -, -, rfl⟩ := loading_ok he
    exact .next
  | storing =>
    obtain ⟨locals, -, rfl⟩ := setSlot_ok he
    exact .next
  | incrementing =>
    obtain ⟨a, locals, -, -, rfl⟩ := incrementing_ok he
    exact .next
  | loadingElement =>
    obtain ⟨a, v, -, -, -, rfl⟩ := loadingElement_ok he
    exact .next
  | storingElement =>
    obtain ⟨a, a', -, -, -, rfl⟩ := storingElement_ok he
    exact .next
  | allocating =>
    obtain ⟨-, rfl⟩ := allocating_ok he
    exact .next
  | measuring =>
    obtain ⟨a, -, rfl⟩ := measuring_ok he
    exact .next
  | arithmetic | bitwise | compare =>
    obtain ⟨x, -, rfl⟩ := binary_ok he
    exact .next
  | branching d test offset =>
    cases he
    change Move.Follows (.branch offset) (if test args then .branch offset else .next)
    split
    · exact .taken offset
    · exact .untaken offset
  | getting =>
    obtain ⟨v, -, -, rfl⟩ := getting_ok he
    exact .next
  | putting =>
    obtain ⟨statics, -, rfl⟩ := putting_ok he
    exact .next
  | calling m =>
    cases he
    have hparams : args.values.map Value.kind = m.params.reverse := Arguments.kinds_values args
    refine .call ?_
    rw [List.map_reverse]
    exact List.reverse_eq_iff.2 hparams
  | returning k =>
    cases he
    have hm := Move.Follows.return (some (.of k args.1))
    rwa [Option.map_some, Value.kind_of] at hm
  | leaving =>
    cases he
    exact .return none

/-- What follows from arguments in a store of the needed kinds is of the kinds foretold. -/
theorem kinded (h : p.Family need flow)
    (hn : need.retype? s.statics.kinds s.locals.kinds = some slots) (hs : s.heap.Sound)
    {e : Effect} (he : p.effect args s = .ok e) :
    e.Kinded s.statics.kinds (p.gives (args.values.map Value.kind)) slots flow := by
  have hmove := h.follows he
  cases h with
  | pushing =>
    cases he
    cases hn
    exact ⟨rfl, rfl, rfl, hs, hmove⟩
  | loading op k index =>
    obtain ⟨v, -, rfl, rfl⟩ := loading_ok he
    obtain ⟨-, rfl⟩ := slot_of_retype? hn
    exact ⟨rfl, rfl, rfl, hs, hmove⟩
  | storing k index =>
    obtain ⟨locals, hl, rfl⟩ := setSlot_ok he
    obtain ⟨-, rfl⟩ := target_of_retype? hn
    have hk := Locals.kinds_store hl
    rw [Value.kind_of] at hk
    exact ⟨rfl, hk, rfl, hs, hmove⟩
  | incrementing op index delta =>
    obtain ⟨a, locals, -, hl, rfl⟩ := incrementing_ok he
    obtain ⟨hk, rfl⟩ := slot_of_retype? hn
    refine ⟨rfl, (Locals.kinds_store hl).trans ?_, rfl, hs, hmove⟩
    obtain ⟨hi, hk⟩ := List.getElem?_eq_some_iff.1 hk
    rw [Value.kind, ← hk, List.set_getElem_self]
  | loadingElement op k =>
    obtain ⟨a, v, ha, rfl, hv, rfl⟩ := loadingElement_ok he
    obtain ⟨i, -, rfl⟩ := ArrayObject.load_ok hv
    cases hn
    refine ⟨?_, rfl, rfl, hs, hmove⟩
    change [(a.get i).kind] = [a.declared.valueKind]
    rw [ArrayObject.get, ElementKind.kind_widen, hs _ _ ha]
  | storingElement op k =>
    obtain ⟨a, a', ha, -, hst, rfl⟩ := storingElement_ok he
    cases hn
    exact ⟨rfl, rfl, rfl, hs.setArray (ArrayObject.sound_store hst (hs _ _ ha)) _, hmove⟩
  | allocating k =>
    obtain ⟨-, rfl⟩ := allocating_ok he
    cases hn
    exact ⟨rfl, rfl, rfl, hs.alloc rfl, hmove⟩
  | measuring op =>
    obtain ⟨a, -, rfl⟩ := measuring_ok he
    cases hn
    exact ⟨rfl, rfl, rfl, hs, hmove⟩
  | dropping | duplicating | exchanging | branching | calling | returning | leaving =>
    cases he
    cases hn
    exact ⟨rfl, rfl, rfl, hs, hmove⟩
  | arithmetic | bitwise | compare =>
    obtain ⟨x, -, rfl⟩ := binary_ok he
    cases hn
    exact ⟨congrArg (fun k => [k]) (Value.kind_of _ x), rfl, rfl, hs, hmove⟩
  | negate | convert | shifting =>
    cases he
    cases hn
    exact ⟨congrArg (fun k => [k]) (Value.kind_of _ _), rfl, rfl, hs, hmove⟩
  | getting f =>
    obtain ⟨v, -, hk, rfl⟩ := getting_ok he
    obtain ⟨-, rfl⟩ := field_of_retype? hn
    exact ⟨congrArg (fun k => [k]) hk, rfl, rfl, hs, hmove⟩
  | putting f =>
    obtain ⟨statics, hp, rfl⟩ := putting_ok he
    obtain ⟨-, rfl⟩ := field_of_retype? hn
    exact ⟨rfl, rfl, Statics.kinds_put hp, hs, hmove⟩

/-- Arguments are refused in such a store only for reasons that kinds say nothing about. -/
theorem isDynamic_of_refusal (h : p.Family need flow)
    (hn : need.retype? s.statics.kinds s.locals.kinds = some slots) (hs : s.heap.Sound)
    {c : Cause} (he : p.effect args s = .error c) : c.isDynamic := by
  cases h with
  | loading op k index =>
    obtain ⟨v, hv, hk⟩ := Locals.load_of_kinds (slot_of_retype? hn).1
    rcases loading_error he with ⟨f, hf, -⟩ | ⟨w, hw, hne, -⟩
    · rw [hv] at hf
      cases hf
    · rw [hv] at hw
      cases hw
      exact absurd hk hne
  | storing k index =>
    obtain ⟨f, hf, -⟩ := setSlot_error he
    obtain ⟨l, hl⟩ := Locals.store_of_kinds (.of k args.1) (target_of_retype? hn).1
    rw [hl] at hf
    cases hf
  | incrementing op index delta =>
    have hi := (slot_of_retype? hn).1
    obtain ⟨v, hv, hk⟩ := Locals.load_of_kinds hi
    rcases incrementing_error he with ⟨f, hf, -⟩ | ⟨a, f, -, hf, -⟩ | ⟨w, hw, hne, -⟩
    · rw [hv] at hf
      cases hf
    · obtain ⟨l, hl⟩ := Locals.store_of_kinds (.int (increment a delta))
        (List.getElem?_eq_some_iff.1 hi).1
      rw [hl] at hf
      cases hf
    · rw [hv] at hw
      cases hw
      exact absurd hk hne
  | loadingElement op k =>
    rcases loadingElement_error he with rfl | rfl | ⟨found, rfl⟩ | ⟨index, length, rfl⟩ <;> rfl
  | storingElement op k =>
    rcases storingElement_error he with rfl | rfl | ⟨found, rfl⟩ | ⟨a, ha, hk, f, hf, rfl⟩
    · rfl
    · rfl
    · rfl
    · rcases ArrayObject.store_error hf with rfl | ⟨-, hne⟩
      · rfl
      · rw [Value.kind_of, hs _ _ ha, hk] at hne
        exact absurd rfl hne
  | allocating k =>
    obtain rfl := allocating_error he
    rfl
  | measuring op => rcases measuring_error he with rfl | rfl <;> rfl
  | arithmetic o n =>
    obtain ⟨g, hg, rfl⟩ := binary_error he
    rw [Arithmetic.apply_error hg]
    rfl
  | bitwise | compare =>
    obtain ⟨g, hg, -⟩ := binary_error he
    cases hg
  | getting f =>
    have hk := (field_of_retype? hn).1
    rcases getting_error he with ⟨hf, -⟩ | ⟨v, hf, hne, -⟩
    · simp [Statics.kinds, hf] at hk
    · simp only [Statics.kinds, hf, Option.map_some, Option.some.injEq] at hk
      exact absurd hk hne
  | putting f =>
    have hk := (field_of_retype? hn).1
    rcases putting_error he with ⟨hf, -⟩ | ⟨v, hf, hne, -⟩
    · simp [Statics.kinds, hf] at hk
    · simp only [Statics.kinds, hf, Option.map_some, Option.some.injEq] at hk
      exact absurd hk hne
  | pushing | dropping | duplicating | exchanging | negate | convert | shifting | branching
  | calling | returning | leaving => cases he

end Plan.Family

end StackMachine
