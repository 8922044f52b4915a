import StackMachine.Proofs.Course
import StackMachine.Proofs.Footprint

/-!
# What becomes of objects

No step takes an object away. Strings and class literals stay what they are, an array
keeps its declaration, the kind of its storage and its length, and all that is ever added
are new arrays that store what they are declared to. This holds of steps that fail as
well, and it adds up along an execution, so that it holds between any two machines that an
execution comes by, whichever references lead to an array and whoever writes to it.

On such a heap the two checks that guard a store, one against the declared kind and one
against the kind of the storage, come to the same.
-/

namespace StackMachine

/-- What may become of an object. -/
inductive Object.Becomes : Object → Object → Prop where
  | array {a a' : ArrayObject} (declared : a'.declared = a.declared)
      (kind : a'.storage.kind = a.storage.kind) (length : a'.length = a.length) :
      Becomes (.array a) (.array a')
  | string (s : String) : Becomes (.string s) (.string s)
  | className (name : String) : Becomes (.className name) (.className name)

/-- What may become of the objects of a heap. -/
structure Heap.Grows (h h' : Heap) : Prop where
  /-- The objects that there were are still there. -/
  kept : ∀ r o, h.object? r = some o → ∃ o', h'.object? r = some o' ∧ o.Becomes o'
  /-- Only arrays have been added. -/
  added : ∀ r o, h.object? r = none → h'.object? r = some o →
    ∃ a, o = .array a ∧ a.storage.kind = a.declared

theorem Object.Becomes.refl (o : Object) : o.Becomes o := by
  cases o with
  | array a => exact .array rfl rfl rfl
  | string s => exact .string s
  | className name => exact .className name

theorem Object.Becomes.trans {o₁ o₂ o₃ : Object} (h : o₁.Becomes o₂) (h' : o₂.Becomes o₃) :
    o₁.Becomes o₃ := by
  cases h with
  | array declared kind length =>
    cases h' with
    | array declared' kind' length' =>
      exact .array (declared'.trans declared) (kind'.trans kind) (length'.trans length)
  | string | className => exact h'

namespace Heap

variable {h h' h'' : Heap} {r : Reference} {a : ArrayObject}

/-- The array at a reference is the object there. -/
theorem array?_eq_some_iff : h.array? r = some a ↔ h.object? r = some (.array a) := by
  unfold array?
  rcases h.object? r with _ | _ | _ | _ <;> simp

namespace Grows

theorem refl (h : Heap) : h.Grows h where
  kept _ o ho := ⟨o, ho, .refl o⟩
  added r o hnone hsome := by
    rw [hnone] at hsome
    cases hsome

theorem trans (hg : h.Grows h') (hg' : h'.Grows h'') : h.Grows h'' where
  kept r o ho := by
    obtain ⟨o', ho', hbecomes⟩ := hg.kept r o ho
    obtain ⟨o'', ho'', hbecomes'⟩ := hg'.kept r o' ho'
    exact ⟨o'', ho'', hbecomes.trans hbecomes'⟩
  added r o hnone hsome := by
    cases ho' : h'.object? r with
    | none => exact hg'.added r o ho' hsome
    | some o' =>
      obtain ⟨a, rfl, hkind⟩ := hg.added r o' hnone ho'
      obtain ⟨o'', ho'', hbecomes⟩ := hg'.kept r _ ho'
      obtain rfl : o'' = o := Option.some.inj (ho''.symm.trans hsome)
      cases hbecomes with
      | array declared kind => exact ⟨_, rfl, kind.trans (hkind.trans declared.symm)⟩

/-- An array stays an array, of the same kinds and the same length. -/
theorem array (hg : h.Grows h') (ha : h.array? r = some a) :
    ∃ a', h'.array? r = some a' ∧ a'.declared = a.declared ∧
      a'.storage.kind = a.storage.kind ∧ a'.length = a.length := by
  obtain ⟨o', ho', hbecomes⟩ := hg.kept r _ (array?_eq_some_iff.1 ha)
  cases hbecomes with
  | array declared kind length =>
    exact ⟨_, array?_eq_some_iff.2 ho', declared, kind, length⟩

/-- An object that is not there at the end was not there at the beginning. -/
theorem object?_eq_none (hg : h.Grows h') (hnone : h'.object? r = none) : h.object? r = none := by
  cases ho : h.object? r with
  | none => rfl
  | some o =>
    obtain ⟨o', ho', -⟩ := hg.kept r o ho
    rw [hnone] at ho'
    cases ho'

/-- Arrays go on storing what they are declared to. -/
theorem sound (hg : h.Grows h') (hs : h.Sound) : h'.Sound := by
  intro r a' ha'
  have ho' := array?_eq_some_iff.1 ha'
  cases ho : h.object? r with
  | none =>
    obtain ⟨a, heq, hkind⟩ := hg.added r _ ho ho'
    cases heq
    exact hkind
  | some o =>
    obtain ⟨o', ho'', hbecomes⟩ := hg.kept r o ho
    obtain rfl : o' = .array a' := Option.some.inj (ho''.symm.trans ho')
    cases hbecomes with
    | array declared kind =>
      exact kind.trans ((hs r _ (array?_eq_some_iff.2 ho)).trans declared.symm)

/-- Replacing an array by what it has become is no more than that. -/
theorem setArray {a a' : ArrayObject} (ha : h.array? r = some a)
    (hbecomes : (Object.array a).Becomes (.array a')) : h.Grows (h.setArray r a') where
  kept r' o ho := by
    by_cases hr : r' = r
    · subst hr
      rw [array?_eq_some_iff.1 ha] at ho
      cases ho
      exact ⟨_, array?_eq_some_iff.1 (array?_setArray ha), hbecomes⟩
    · exact ⟨o, (object?_setArray_ne h a' hr).trans ho, .refl o⟩
  added r' o hnone hsome := by
    have hr : r' ≠ r := by
      rintro rfl
      rw [array?_eq_some_iff.1 ha] at hnone
      cases hnone
    rw [object?_setArray_ne h a' hr, hnone] at hsome
    cases hsome

/-- A new array that stores what it is declared to is an array that is added. -/
theorem alloc (ha : a.storage.kind = a.declared) : h.Grows (h.alloc (.array a)).2 where
  kept r' o ho := by
    have hr : r' ≠ (h.alloc (.array a)).1 := by
      rintro rfl
      rw [object?_alloc_fst] at ho
      cases ho
    exact ⟨o, (object?_alloc_ne h _ hr).trans ho, .refl o⟩
  added r' o hnone hsome := by
    by_cases hr : r' = (h.alloc (.array a)).1
    · subst hr
      rw [object?_alloc] at hsome
      cases hsome
      exact ⟨a, rfl, ha⟩
    · rw [object?_alloc_ne h _ hr, hnone] at hsome
      cases hsome

end Grows

end Heap

/-! ### One step -/

/-- What an instruction yields adds arrays at most. -/
theorem Instruction.Yields.grows {i : Instruction Value} {taken : List Value} {s : Store}
    {e : Effect} (h : i.Yields taken s e) : s.heap.Grows e.store.heap := by
  cases h with
  | arrayStore o x index array declared stored =>
    obtain ⟨j, y, -, -, rfl⟩ := ArrayObject.store_ok stored
    exact .setArray array (.array rfl rfl rfl)
  | newarray | anewarray => exact .alloc rfl
  | _ => exact .refl _

/-- A step adds arrays at most, whether it completes or fails. -/
theorem Action.grows_of_step (i : Instruction Value) (m : Machine) :
    m.heap.Grows (Machine.leftBy (step i m)).heap := by
  rcases step_cases i m with ⟨c, m', hs, hc⟩ | ⟨e, m', hs, hf⟩
  · rw [hs]
    cases hc with
    | intro plan stack effect => exact (Instruction.yields_of_effect plan effect).grows
  · rw [hs]
    cases hf with
    | operand | argument | refused => exact .refl _
    | overflow plan stack effect => exact (Instruction.yields_of_effect plan effect).grows

/-! ### A whole execution -/

/-- The heap grows from each point of a run to every later one. -/
theorem Block.grows_of_reaches {block : Block} {m n n' : Machine}
    (h : (block.course m).Reaches n n') : n.heap.Grows n'.heap := by
  induction h with
  | refl => exact .refl _
  | @tail n n' _ hnext ih =>
    obtain ⟨i, -, hs⟩ := hnext
    have hstep := Action.grows_of_step i n
    rw [hs] at hstep
    exact ih.trans hstep

namespace FlatMachine

/-- A move adds arrays at most. -/
theorem grows_of_move (methods : Methods) (f : FlatMachine) :
    f.heap.Grows (f.move methods).machine.heap := by
  cases here : f.top.block[f.top.frame.pc]? with
  | none =>
    rw [move_of_end here]
    exact .refl _
  | some i =>
    rw [(move_shared here).2]
    exact Action.grows_of_step i f.machine

/-- The heap grows from each point of an invocation to every later one. -/
theorem grows_of_reaches {methods : Methods} {block : Block} {m : Machine} {f g : FlatMachine}
    (h : (course methods block m).Reaches f g) : f.heap.Grows g.heap := by
  induction h with
  | refl => exact .refl _
  | @tail g g' _ hnext ih =>
    have hmove : g.move methods = .running g' := hnext
    have hgrows := grows_of_move methods g
    rw [hmove] at hgrows
    exact ih.trans hgrows

end FlatMachine

end StackMachine
