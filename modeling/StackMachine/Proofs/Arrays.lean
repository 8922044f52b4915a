import StackMachine.Proofs.Growth

/-!
# Arrays under execution

On a heap whose arrays store what they are declared to, every instruction treats arrays as
it should, whatever else is wrong with the program: a new array has the length that was
asked for and tells it from then on, an element is of the kind that the instruction reads,
and no store is refused for the kind of its value. Such a heap stays one, so this holds of
every instruction of a run or of an invocation.
-/

namespace StackMachine

/-- An instruction that creates an array has completed and left a reference to it. -/
structure Instruction.Creates (i : Instruction Value) (m m' : Machine) (r : Reference) :
    Prop where
  opcode : i.opcode = .newarray ∨ i.opcode = .anewarray
  stepped : Action.step i m = .ok .next m'
  left : m'.frame.stack.head? = some (.reference r)

/-- A reference leads to an array of a length, which is what `arraylength` tells. -/
structure Machine.Measures (m : Machine) (r : Reference) (size : Int32) : Prop where
  array : ∃ a, m.heap.array? r = some a ∧ a.storage.kind = a.declared ∧
    (a.length : Int) = size.toInt
  told : ∀ i rest, i.opcode = .arraylength → m.frame.stack = .reference r :: rest →
    m.frame.stack.length ≤ m.frame.maxStack →
      ∃ m', Action.step i m = .ok .next m' ∧ m'.frame.stack = .int size :: rest

/-- What an instruction does to arrays in a machine. -/
structure Instruction.RespectsArrays (i : Instruction Value) (m : Machine) : Prop where
  /-- Those that there are keep their kinds and their lengths, also if the step fails. -/
  grows : m.heap.Grows (Machine.leftBy (Action.step i m)).heap
  /-- An instruction for creating arrays that completes creates one. -/
  completes : ∀ c m', i.opcode = .newarray ∨ i.opcode = .anewarray →
    Action.step i m = .ok c m' → ∃ r, i.Creates m m' r
  /-- The new array was not there before. It has the length that was on the stack, there and
  wherever the heap has come from there. -/
  creates : ∀ m' r, i.Creates m m' r → m.heap.object? r = none ∧
    ∃ size rest, m.frame.stack = .int size :: rest ∧ m'.frame.stack = .reference r :: rest ∧
      ∀ n : Machine, m'.heap.Grows n.heap → n.Measures r size
  /-- An element is of the kind that the instruction reads. -/
  loads : ∀ k c m', i.opcode = .arrayLoad k → Action.step i m = .ok c m' →
    ∃ v rest, m'.frame.stack = v :: rest ∧ v.kind = k.valueKind
  /-- No store is refused for the kind of its value. -/
  stores : ∀ e m' declared found, Action.step i m = .error e m' →
    e.cause ≠ .fault (.arrayStore declared found)

/-- What an execution does to arrays. -/
structure Course.RespectsArrays {Point : Type} (c : Course Point) : Prop where
  /-- Every array stores what it is declared to. -/
  sound : ∀ p, c.Visits p → (c.machine p).heap.Sound
  /-- From each point on, arrays keep their kinds and their lengths. -/
  grows : ∀ p q, c.Visits p → c.Reaches p q → (c.machine p).heap.Grows (c.machine q).heap
  steps : ∀ p i, c.Visits p → c.AtInstruction p i → i.RespectsArrays (c.machine p)

/-! ### Creating an array -/

section

variable {i : Instruction Value} {m m' : Machine} {c : Control}

/-- An instruction for creating arrays yields a new array of the length that it takes. -/
theorem Instruction.Yields.allocate {taken : List Value} {s : Store} {e : Effect}
    (h : i.Yields taken s e) (hop : i.opcode = .newarray ∨ i.opcode = .anewarray) :
    ∃ k size, i.footprint = .array k ∧ taken = [.int size] ∧ e = .allocate k size s := by
  cases h with
  | newarray s fits =>
    exact ⟨_, _, by simp only [footprint, fits, Option.elim_some], rfl, rfl⟩
  | anewarray => exact ⟨.reference, _, rfl, rfl, rfl⟩
  | _ => rcases hop with hop | hop <;> cases hop

/-- What an instruction for creating arrays has done when it completes. -/
private theorem created_of_step (hop : i.opcode = .newarray ∨ i.opcode = .anewarray)
    (h : Action.step i m = .ok c m') :
    c = .next ∧ ∃ k, i.footprint = .array k ∧ ∃ size below r, m.frame.stack = .int size :: below ∧
      m'.frame.stack = .reference r :: below ∧
      (Footprint.array k).Covers [.int size] [.reference r] m.store m'.store := by
  cases Action.completes_of_step h with
  | @intro p args below e plan stack effect room =>
    have hyields := Instruction.yields_of_effect plan effect
    have hcovers := hyields.covers
    obtain ⟨k, size, hfootprint, htaken, rfl⟩ := hyields.allocate hop
    rw [htaken] at stack hcovers
    rw [hfootprint] at hcovers
    exact ⟨rfl, k, hfootprint, size, below, _, stack, rfl, hcovers⟩

/-- An instruction for creating arrays that completes creates one. -/
theorem Instruction.creates_of_step (hop : i.opcode = .newarray ∨ i.opcode = .anewarray)
    (h : Action.step i m = .ok c m') : ∃ r, i.Creates m m' r := by
  obtain ⟨rfl, k, -, size, below, r, -, hleft, -⟩ := created_of_step hop h
  exact ⟨r, hop, h, by rw [hleft]; rfl⟩

/-- A new array was not there before, and it has the length that was on the stack. -/
theorem Instruction.Creates.exists_array {r : Reference} (h : i.Creates m m' r) :
    m.heap.object? r = none ∧ ∃ size rest a, m.frame.stack = .int size :: rest ∧
      m'.frame.stack = .reference r :: rest ∧ m'.heap.array? r = some a ∧
      a.storage.kind = a.declared ∧ (a.length : Int) = size.toInt := by
  obtain ⟨-, k, -, size, below, r', hstack, hstack', -, -, n, r'', a, htaken, hpushed, -, hnew,
    ha, hdeclared, hkind, hlength, -⟩ := created_of_step h.opcode h.stepped
  cases htaken
  cases hpushed
  obtain rfl : r' = r := by
    have hleft := h.left
    rw [hstack'] at hleft
    cases hleft
    rfl
  exact ⟨hnew, size, below, a, hstack, hstack', ha, hkind.trans hdeclared.symm, hlength⟩

end

/-! ### Measuring an array -/

/-- The length of an array, if it fits an int, is that int. -/
private theorem lengthValue_of_toInt {n : Nat} {size : Int32} (h : (n : Int) = size.toInt) :
    Action.lengthValue n = size := by
  have hmax : Int32.maxValue.toInt = 2147483647 := by decide
  have hle := Int32.toInt_le size
  rw [Action.lengthValue, hmax, Nat.min_eq_left (by omega)]
  refine Int32.toInt_inj.1 ?_
  rw [← h]
  exact Int32.toInt_ofNat_of_lt (by omega)

/-- The length of an array is what the instruction for it tells. -/
theorem Machine.measures_of_array {m : Machine} {r : Reference} {a : ArrayObject} {size : Int32}
    (ha : m.heap.array? r = some a) (hkind : a.storage.kind = a.declared)
    (hlength : (a.length : Int) = size.toInt) : m.Measures r size where
  array := ⟨a, ha, hkind, hlength⟩
  told i rest hop hstack hdepth := by
    obtain ⟨op, operand⟩ := i
    obtain rfl : op = .arraylength := hop
    let args : Arguments [some .reference] := (r, ())
    have heffect : (Plan.measuring .arraylength).effect args m.store =
        .ok (.push (.int size) m.store) := by
      have harray : m.heap.arrayAt .arraylength r = .ok a := Heap.arrayAt_ok.2 ha
      change m.heap.arrayAt .arraylength r >>= _ = _
      rw [harray, ← lengthValue_of_toInt hlength]
      rfl
    have hroom : (Effect.push (.int size) m.store).HasRoom rest.length m.frame.maxStack := by
      rw [hstack] at hdepth
      exact .inr hdepth
    have htaken : m.frame.stack = args.values ++ rest := hstack
    exact ⟨_, Action.step_of_effect (p := .measuring .arraylength) rfl htaken heffect hroom, rfl⟩

/-! ### Refused stores -/

/-- A slot is not loaded only if there is none. -/
theorem Locals.load_error {l : Locals} {index : UInt16} {f : Fault}
    (h : l.load index = .error f) : f = .slotIndex index l.length := by
  unfold load at h
  split at h <;> cases h
  rfl

theorem Locals.store_error {l : Locals} {index : UInt16} {v : Value} {f : Fault}
    (h : l.store index v = .error f) : f = .slotIndex index l.length := by
  unfold store at h
  split at h <;> cases h
  rfl

/-- Where arrays store what they are declared to, no arguments are refused because an array
does not take a value. -/
theorem Plan.Family.ne_arrayStore {p : Plan} {need : Need} {flow : Flow} (h : p.Family need flow)
    {args : Arguments p.demand} {s : Store} {c : Cause} (hs : s.heap.Sound)
    (he : p.effect args s = .error c) (declared : ElementKind) (found : Kind) :
    c ≠ .fault (.arrayStore declared found) := by
  cases h with
  | loading =>
    rcases loading_error he with ⟨f, hf, rfl⟩ | ⟨v, -, -, rfl⟩
    · rw [Locals.load_error hf]
      exact nofun
    · exact nofun
  | storing =>
    obtain ⟨f, hf, rfl⟩ := setSlot_error he
    rw [Locals.store_error hf]
    exact nofun
  | incrementing =>
    rcases incrementing_error he with ⟨f, hf, rfl⟩ | ⟨a, f, -, hf, rfl⟩ | ⟨v, -, -, rfl⟩
    · rw [Locals.load_error hf]
      exact nofun
    · rw [Locals.store_error hf]
      exact nofun
    · exact nofun
  | loadingElement =>
    rcases loadingElement_error he with rfl | rfl | ⟨k, rfl⟩ | ⟨index, length, rfl⟩ <;> exact nofun
  | storingElement op k =>
    rcases storingElement_error he with rfl | rfl | ⟨k', rfl⟩ | ⟨a, ha, hk, f, hf, rfl⟩
    · exact nofun
    · exact nofun
    · exact nofun
    · -- The value is of the declared kind, which is the kind of the storage.
      rcases ArrayObject.store_error hf with rfl | ⟨-, hne⟩
      · exact nofun
      · rw [Value.kind_of, hs _ _ ha, hk] at hne
        exact absurd rfl hne
  | allocating =>
    rw [allocating_error he]
    exact nofun
  | measuring => rcases measuring_error he with rfl | rfl <;> exact nofun
  | arithmetic o n =>
    obtain ⟨g, hg, rfl⟩ := binary_error he
    rw [Arithmetic.apply_error hg]
    exact nofun
  | bitwise | compare =>
    obtain ⟨g, hg, -⟩ := binary_error he
    cases hg
  | getting => rcases getting_error he with ⟨-, rfl⟩ | ⟨v, -, -, rfl⟩ <;> exact nofun
  | putting => rcases putting_error he with ⟨-, rfl⟩ | ⟨v, -, -, rfl⟩ <;> exact nofun
  | pushing | dropping | duplicating | exchanging | negate | convert | shifting | branching
  | calling | returning | leaving => cases he

/-! ### One instruction -/

/-- Where arrays store what they are declared to, every instruction respects them. -/
theorem Instruction.respectsArrays (i : Instruction Value) {m : Machine} (sound : m.heap.Sound) :
    i.RespectsArrays m where
  grows := Action.grows_of_step i m
  completes c m' := creates_of_step
  creates m' r h := by
    obtain ⟨hnew, size, rest, a, hstack, hstack', ha, hkind, hlength⟩ := h.exists_array
    refine ⟨hnew, size, rest, hstack, hstack', fun n hgrows => ?_⟩
    obtain ⟨a', ha', hdeclared', hkind', hlength'⟩ := hgrows.array ha
    refine Machine.measures_of_array ha' ?_ ?_
    · exact hkind'.trans (hkind.trans hdeclared'.symm)
    · rw [hlength', hlength]
  loads k c m' hop h := by
    cases Action.completes_of_step h with
    | @intro p args below e plan stack effect room =>
      obtain ⟨op, operand⟩ := i
      obtain rfl : op = .arrayLoad k := hop
      cases plan
      obtain ⟨a, v, ha, hk, hv, rfl⟩ := Plan.loadingElement_ok effect
      obtain ⟨j, -, rfl⟩ := ArrayObject.load_ok hv
      refine ⟨a.get j, below, rfl, ?_⟩
      rw [ArrayObject.get, ElementKind.kind_widen, sound _ _ ha, hk]
  stores e m' declared found h := by
    cases Action.fails_of_step h with
    | operand | overflow => simp
    | argument plan taken cause => rcases cause with rfl | ⟨k, found', rfl⟩ <;> simp
    | refused plan stack effect =>
      exact (family_of_plan? plan).ne_arrayStore sound effect declared found

/-! ### A whole execution -/

/-- Arrays keep their kinds and their lengths under execution. When every array of a heap
stores what it is declared to, this is so wherever an invocation or a run of a block comes,
whatever its instructions do and however it ends. Between any two points of it the arrays of
the first one keep their declared kinds, their storage kinds and their lengths; each
instruction that is executed at such a point respects arrays; and the heap that is left in
the end is one that the first heap has become in the same way. -/
theorem execution_respects_arrays (methods : Methods) (block : Block) (m : Machine)
    (sound : m.heap.Sound) :
    (FlatMachine.course methods block m).RespectsArrays ∧ (block.course m).RespectsArrays ∧
      m.heap.Grows (Machine.leftBy (Invocation.invoke methods block m)).heap ∧
      m.heap.Grows (Machine.leftBy (Action.run block m)).heap := by
  refine ⟨?_, ?_, ?_, ?_⟩
  · have hsound : ∀ f, (FlatMachine.course methods block m).Visits f → f.heap.Sound :=
      fun f hf => (FlatMachine.grows_of_reaches hf).sound sound
    exact ⟨hsound, fun f g _ hg => FlatMachine.grows_of_reaches hg,
      fun f i hf _ => i.respectsArrays (hsound f hf)⟩
  · have hsound : ∀ n, (block.course m).Visits n → n.heap.Sound :=
      fun n hn => (Block.grows_of_reaches hn).sound sound
    exact ⟨hsound, fun n n' _ hn' => Block.grows_of_reaches hn',
      fun n i hn _ => i.respectsArrays (hsound n hn)⟩
  · obtain ⟨last, hvisits, hlast⟩ := FlatMachine.exists_last_of_invoke methods block m
    have hgrows := (FlatMachine.grows_of_reaches hvisits).trans
      (FlatMachine.grows_of_move methods last)
    rcases hlast with ⟨v, g, hmove, hinvoke⟩ | ⟨e, g, hmove, hinvoke⟩
    · rw [hmove] at hgrows
      rw [hinvoke]
      exact hgrows
    · rw [hmove] at hgrows
      rw [hinvoke]
      exact hgrows
  · obtain ⟨last, hvisits, hlast⟩ := block.exists_last_of_run m
    have hgrows := Block.grows_of_reaches hvisits
    rcases hlast with ⟨-, hrun⟩ | ⟨i, -, hrun⟩
    · rw [hrun]
      exact hgrows
    · rw [hrun]
      exact hgrows.trans (Action.grows_of_step i last)

/-- A block that writes to an array in a slot, and creates and measures another one, on a heap
with an array of chars. -/
theorem execution_respects_arrays_castore :
    let block : Block :=
      [⟨.load .reference none, .slot 0⟩, ⟨.constant (.int 1), .none⟩, ⟨.bipush, .immediate 90⟩,
        ⟨.arrayStore .char, .none⟩, ⟨.bipush, .immediate 3⟩, ⟨.newarray, .elementKind .byte⟩,
        ⟨.arraylength, .none⟩, ⟨.returnValue .int, .none⟩]
    let h := (Heap.empty.alloc (.array (.zeroed .char 2))).2
    let m : Machine := ⟨.new (.ofArguments [.reference (.to 0)]) 3, .empty, h⟩
    m.heap.Sound ∧
      (FlatMachine.course .empty block m).RespectsArrays ∧ (block.course m).RespectsArrays ∧
      m.heap.Grows (Machine.leftBy (Invocation.invoke .empty block m)).heap ∧
      m.heap.Grows (Machine.leftBy (Action.run block m)).heap := by
  intro block h m
  have sound : m.heap.Sound := Heap.Sound.empty.alloc rfl
  exact ⟨sound, execution_respects_arrays .empty block m sound⟩

end StackMachine
