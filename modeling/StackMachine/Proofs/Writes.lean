import StackMachine.Proofs.Growth

/-!
# Writes to what activations share

An instruction writes to at most one of the things that all activations share: it gives a
static field or an element of an array a value, or it adds an array to the heap. What it
writes is told by its opcode, its operand and its arguments, whatever the fields and the
objects are, and two writes to different things can change places.
-/

namespace StackMachine

/-- A place in what activations share. -/
inductive Place where
  | field (name : String)
  | element (r : Reference) (n : Nat)

/-- A write to what activations share. -/
inductive Write where
  | nothing
  | field (name : String) (v : Value)
  | element (r : Reference) (n : Nat) (v : Value)
  | array (a : ArrayObject)

/-- The storage with an element replaced by what becomes of a value in storage, if there is such
an element and the value can be stored. -/
def Storage.setElement (s : Storage) (n : Nat) (v : Value) : Storage where
  kind := s.kind
  length := s.length
  written :=
    if hn : n < s.length then (s.kind.narrow? v).elim s.written fun x => (s.set ⟨n, hn⟩ x).written
    else s.written

/-- The array with an element replaced. -/
def ArrayObject.setElement (a : ArrayObject) (n : Nat) (v : Value) : ArrayObject :=
  { a with storage := a.storage.setElement n v }

/-- An array with an element replaced, or any other object as it is. -/
def Object.setElement (n : Nat) (v : Value) : Object → Object
  | .array a => .array (a.setElement n v)
  | o => o

/-- The heap with an element of the array at a reference replaced. -/
def Heap.setElement (h : Heap) (n : Nat) (v : Value) : Reference → Heap
  | .null => h
  | .to address => ⟨h.objects.modify address (Object.setElement n v)⟩

namespace Write

/-- The place that a write is to; a new array is at none. -/
def place? : Write → Option Place
  | field name _ => some (.field name)
  | element r n _ => some (.element r n)
  | nothing | array _ => none

/-- The static fields after a write. -/
def statics : Write → Statics → Statics
  | field name v, s => ⟨Statics.replace name v s.fields, by simpa using s.nodup⟩
  | nothing, s | element .., s | array _, s => s

/-- The objects after a write. -/
def heap : Write → Heap → Heap
  | element r n v, h => h.setElement n v r
  | array a, h => (h.alloc (.array a)).2
  | nothing, h | field .., h => h

/-- What is written to is there, and a field keeps its kind. -/
def Fits (s : Statics) (h : Heap) : Write → Prop
  | field name v => s.kinds name = some v.kind
  | element r _ _ => ∃ a, h.array? r = some a
  | nothing | array _ => True

end Write

/-! ### Replacing an element -/

namespace Storage

/-- At a position inside, an element takes what becomes of the value in storage. -/
theorem setElement_of_lt {s : Storage} {n : Nat} {v : Value} {x : s.kind.Carrier}
    (hn : n < s.length) (hx : s.kind.narrow? v = some x) :
    s.setElement n v = s.set ⟨n, hn⟩ x := by
  refine congrArg (Storage.mk s.kind s.length) ?_
  rw [dif_pos hn, hx]
  rfl

/-- Replacing an element changes the storage at one position or not at all. -/
theorem setElement_cases (s : Storage) (n : Nat) (v : Value) :
    s.setElement n v = s ∨ ∃ (hn : n < s.length) (x : s.kind.Carrier),
      s.setElement n v = s.set ⟨n, hn⟩ x := by
  by_cases hn : n < s.length
  · cases hx : s.kind.narrow? v with
    | none =>
      refine .inl (congrArg (Storage.mk s.kind s.length) ?_)
      rw [dif_pos hn, hx]
      rfl
    | some x => exact .inr ⟨hn, x, setElement_of_lt hn hx⟩
  · exact .inl (congrArg (Storage.mk s.kind s.length) (dif_neg hn))

/-- Entries for different keys are inserted in either order. -/
theorem insert_comm {α : Type} {k : Nat} (written : Std.ExtTreeMap (Fin k) α) {i i' : Fin k}
    (x x' : α) (hne : i ≠ i') :
    (written.insert i x).insert i' x' = (written.insert i' x').insert i x := by
  refine Std.ExtTreeMap.ext_getElem? fun j => ?_
  simp only [Std.ExtTreeMap.getElem?_insert, Std.compare_eq_iff_eq]
  by_cases hi : i = j
  · rw [if_pos hi, if_pos hi, if_neg fun hi' => hne (hi.trans hi'.symm)]
  · rw [if_neg hi, if_neg hi]

/-- Elements at different positions are replaced in either order. -/
theorem setElement_comm (s : Storage) {n n' : Nat} (v v' : Value) (hne : n ≠ n') :
    (s.setElement n v).setElement n' v' = (s.setElement n' v').setElement n v := by
  refine congrArg (Storage.mk s.kind s.length) ?_
  simp only [setElement, set]
  by_cases hn : n < s.length
  · by_cases hn' : n' < s.length
    · simp only [hn, hn', ↓reduceDIte]
      cases s.kind.narrow? v with
      | none => rfl
      | some x =>
        cases s.kind.narrow? v' with
        | none => rfl
        | some x' => exact insert_comm s.written x x' fun he => hne (Fin.mk.inj he)
    · simp only [hn, hn', ↓reduceDIte]
      rfl
  · simp only [hn, ↓reduceDIte]
    rfl

end Storage

/-- Replacing an element leaves the others as they are. -/
theorem ArrayObject.element?_setElement_ne (a : ArrayObject) {n n' : Nat} (v : Value)
    (hne : n' ≠ n) : (a.setElement n v).element? n' = a.element? n' := by
  unfold setElement
  rcases a.storage.setElement_cases n v with h | ⟨hn, x, h⟩
  · rw [h]
  · rw [h, element?_set, if_neg hne]

/-- Elements of an object at different positions are replaced in either order. -/
theorem Object.setElement_comm (o : Object) {n n' : Nat} (v v' : Value) (hne : n ≠ n') :
    (o.setElement n v).setElement n' v' = (o.setElement n' v').setElement n v := by
  cases o with
  | array a =>
    exact congrArg (fun s => Object.array ⟨a.declared, s⟩) (a.storage.setElement_comm v v' hne)
  | string | className => rfl

namespace Heap

variable {h : Heap}

/-- Replacing an element changes the object at the reference only. -/
theorem object?_setElement (h : Heap) (n : Nat) (v : Value) (r r' : Reference) :
    (h.setElement n v r).object? r' =
      if r' = r then (h.object? r').map (Object.setElement n v) else h.object? r' := by
  cases r with
  | null =>
    split
    · subst r'
      rfl
    · rfl
  | _ address =>
    cases r' with
    | null => exact (ite_self (c := Reference.null = .to address) none).symm
    | _ address' =>
      simp only [object?, setElement, Array.getElem?_modify, Reference.to.injEq]
      simp only [eq_comm]

/-- It adds no object. -/
theorem size_setElement (h : Heap) (n : Nat) (v : Value) (r : Reference) :
    (h.setElement n v r).objects.size = h.objects.size := by
  cases r with
  | null => rfl
  | _ address => exact Array.size_modify

/-- Heaps are the same when the same objects are at the same references. -/
theorem ext {h h' : Heap} (hobjects : ∀ r, h.object? r = h'.object? r) : h = h' :=
  congrArg Heap.mk (Array.ext_getElem? fun n => hobjects (.to n))

/-- Elements of different arrays, or at different positions, are replaced in either order. -/
theorem setElement_comm (h : Heap) {n n' : Nat} {r r' : Reference} (v v' : Value)
    (hne : r = r' → n ≠ n') :
    (h.setElement n v r).setElement n' v' r' = (h.setElement n' v' r').setElement n v r := by
  refine ext fun r'' => ?_
  simp only [object?_setElement]
  by_cases hr : r'' = r
  · by_cases hr' : r'' = r'
    · rw [if_pos hr, if_pos hr', if_pos hr, if_pos hr', Option.map_map, Option.map_map]
      have hne := hne (hr.symm.trans hr')
      exact congrArg (Option.map · _) (funext fun o => o.setElement_comm v v' hne)
    · rw [if_neg hr', if_neg hr']
  · rw [if_neg hr, if_neg hr]

/-- A new array does not come where there is an array already. -/
theorem setElement_alloc {a a' : ArrayObject} {n : Nat} {r : Reference} (v : Value)
    (ha : h.array? r = some a) :
    (h.alloc (.array a')).2.setElement n v r = ((h.setElement n v r).alloc (.array a')).2 := by
  have hsize := h.size_setElement n v r
  have hfirst : ((h.setElement n v r).alloc (.array a')).1 = (h.alloc (.array a')).1 :=
    congrArg Reference.to hsize
  have hne : (h.alloc (.array a')).1 ≠ r := by
    rintro rfl
    rw [array?, object?_alloc_fst] at ha
    cases ha
  refine ext fun r' => ?_
  rw [object?_setElement]
  by_cases hnew : r' = (h.alloc (.array a')).1
  · subst hnew
    rw [if_neg hne, object?_alloc, ← hfirst, object?_alloc]
  · rw [object?_alloc_ne _ _ hnew, object?_alloc_ne _ _ (hfirst ▸ hnew), object?_setElement]

/-- An array into which a value is stored is replaced by one with another element. -/
theorem setArray_of_store {a a' : ArrayObject} {r : Reference} {index : Int32} {v : Value}
    (ha : h.array? r = some a) (hstore : a.store index v = .ok a') :
    h.setArray r a' = h.setElement index.toInt.toNat v r := by
  obtain ⟨i, x, hi, hx, rfl⟩ := ArrayObject.store_ok hstore
  have harray : { a with storage := a.storage.set i x } = a.setElement index.toInt.toNat v := by
    unfold ArrayObject.position at hi
    split at hi <;> cases hi
    exact congrArg (ArrayObject.mk a.declared) (Storage.setElement_of_lt _ hx).symm
  rw [harray]
  refine ext fun r' => ?_
  rw [object?_setElement]
  split
  · subst r'
    rw [array?_eq_some_iff.1 ha]
    exact array?_eq_some_iff.1 (array?_setArray ha)
  · rename_i hr
    exact object?_setArray_ne h _ hr

end Heap

/-! ### Writes change places -/

/-- Fields of different names are replaced in either order. -/
theorem Statics.replace_comm {name name' : String} (v v' : Value) (hne : name ≠ name')
    (fields : List (String × Value)) :
    replace name' v' (replace name v fields) = replace name v (replace name' v' fields) := by
  induction fields with
  | nil => rfl
  | cons field fields ih =>
    obtain ⟨n, w⟩ := field
    by_cases hn : n = name
    · have hn' : n ≠ name' := fun he => hne (hn.symm.trans he)
      simp only [replace, if_pos hn, if_neg hn']
    · by_cases hn' : n = name'
      · simp only [replace, if_neg hn, if_pos hn']
      · simp only [replace, if_neg hn, if_neg hn', ih]

namespace Write

variable {w w' : Write} {s : Statics} {h : Heap}

/-- Writes to different places change the static fields in either order. -/
theorem statics_comm (hplace : ∀ p, w.place? = some p → w'.place? ≠ some p) (s : Statics) :
    w'.statics (w.statics s) = w.statics (w'.statics s) := by
  cases w with
  | field name v =>
    cases w' with
    | field name' v' =>
      have hne : name ≠ name' := fun he => hplace _ rfl (he ▸ rfl)
      simp only [statics, Statics.replace_comm v v' hne]
    | nothing | element | array => rfl
  | nothing | element | array => rfl

/-- They change the objects in either order, unless both add an array. -/
theorem heap_comm (hw : w.Fits s h) (hw' : w'.Fits s h)
    (hplace : ∀ p, w.place? = some p → w'.place? ≠ some p)
    (harray : ∀ a a', w = .array a → w' ≠ .array a') :
    w'.heap (w.heap h) = w.heap (w'.heap h) := by
  cases w with
  | element r n v =>
    cases w' with
    | element r' n' v' =>
      exact h.setElement_comm v v' fun hr hn => hplace _ rfl (hr ▸ hn ▸ rfl)
    | array a' =>
      obtain ⟨a, ha⟩ := hw
      exact (Heap.setElement_alloc v ha).symm
    | nothing | field => rfl
  | array a =>
    cases w' with
    | element r' n' v' =>
      obtain ⟨a', ha'⟩ := hw'
      exact Heap.setElement_alloc v' ha'
    | array a' => exact absurd rfl (harray a a' rfl)
    | nothing | field => rfl
  | nothing | field => rfl

end Write

/-! ### What a write leaves alone -/

namespace Write

variable {w : Write} {s : Statics} {h : Heap}

/-- A write changes no kinds of fields. -/
theorem kinds_statics (hw : w.Fits s h) : (w.statics s).kinds = s.kinds := by
  cases w with
  | field name v =>
    funext other
    have hlookup := Statics.lookup_replace name other v s.fields
    change ((Statics.replace name v s.fields).lookup other).map Value.kind = s.kinds other
    rw [hlookup]
    split
    · subst other
      have hkind : (s.fields.lookup name).map Value.kind = some v.kind := hw
      obtain ⟨x, hx, -⟩ := Option.map_eq_some_iff.1 hkind
      rw [hx]
      exact hw.symm
    · rfl
  | nothing | element | array => rfl

/-- A field keeps its value unless the write is to it. -/
theorem find?_statics {name : String} (hname : w.place? ≠ some (.field name)) (s : Statics) :
    (w.statics s).find? name = s.find? name := by
  cases w with
  | field name' v =>
    refine (Statics.lookup_replace name' name v s.fields).trans (if_neg ?_)
    rintro rfl
    exact hname rfl
  | nothing | element | array => rfl

/-- What becomes of an array at a reference. -/
def arrayAt (w : Write) (r : Reference) (a : ArrayObject) : ArrayObject :=
  match w with
  | element r' n v => if r = r' then a.setElement n v else a
  | nothing | field .. | array _ => a

/-- What becomes of an object at a reference. -/
def objectAt (w : Write) (r : Reference) : Object → Object
  | .array a => .array (w.arrayAt r a)
  | o => o

/-- A write makes of an array one of the same kinds and the same length. -/
theorem arrayAt_eq (w : Write) (r : Reference) (a : ArrayObject) :
    ∃ written, w.arrayAt r a = { a with storage := { a.storage with written := written } } := by
  cases w with
  | element r' n v =>
    rw [arrayAt]
    split <;> exact ⟨_, rfl⟩
  | nothing | field | array => exact ⟨_, rfl⟩

/-- An element keeps its value unless the write is to it. -/
theorem element?_arrayAt {r : Reference} {n : Nat} (hplace : w.place? ≠ some (.element r n))
    (a : ArrayObject) : (w.arrayAt r a).element? n = a.element? n := by
  cases w with
  | element r' n' v =>
    rw [arrayAt]
    split
    · subst r'
      exact a.element?_setElement_ne v fun hn => hplace (hn ▸ rfl)
    · rfl
  | nothing | field | array => rfl

/-- A reference leads to what has become of the object, unless it is to a new array. -/
theorem object?_heap {r : Reference} (hr : ∀ a, w = .array a → r = .null ∨ h.object? r ≠ none) :
    (w.heap h).object? r = (h.object? r).map (w.objectAt r) := by
  have hkept (o : Option Object) (hw : ∀ a, w.arrayAt r a = a) : o = o.map (w.objectAt r) := by
    rcases o with _ | a | _ | _
    · rfl
    · exact congrArg (fun a => some (Object.array a)) (hw a).symm
    · rfl
    · rfl
  cases w with
  | nothing | field => exact hkept _ fun _ => rfl
  | element r' n v =>
    refine (h.object?_setElement n v r' r).trans ?_
    split
    · rename_i hr
      refine congrArg (Option.map · _) (funext fun o => ?_)
      cases o with
      | array a => exact congrArg Object.array (if_pos hr).symm
      | string | className => rfl
    · rename_i hr
      exact hkept _ fun _ => if_neg hr
  | array a =>
    refine Eq.trans ?_ (hkept _ fun _ => rfl)
    rcases hr a rfl with rfl | hsome
    · rfl
    · refine h.object?_alloc_ne _ ?_
      rintro rfl
      exact hsome (h.object?_alloc_fst _)

/-- The number of objects stays the same, unless an array is added. -/
theorem size_heap (hw : ∀ a, w ≠ .array a) (h : Heap) :
    (w.heap h).objects.size = h.objects.size := by
  cases w with
  | nothing | field => rfl
  | element r n v => exact h.size_setElement n v r
  | array a => exact absurd rfl (hw a)

end Write

/-! ### What a step writes -/

/-- What an instruction writes when it has taken values off the stack, the topmost first. -/
def Instruction.write (i : Instruction Value) (taken : List Value) : Write :=
  match i.opcode, taken with
  | .arrayStore _, [v, .int index, .reference r] => .element r index.toInt.toNat v
  | .putstatic, [v] => i.field?.elim .nothing fun f => .field f.name v
  | .newarray, [.int size] =>
    i.primitive?.elim .nothing fun k => .array (.zeroed k size.toInt.toNat)
  | .anewarray, [.int size] => .array (.zeroed .reference size.toInt.toNat)
  | _, _ => .nothing

namespace Instruction

variable {i : Instruction Value} {s : Store} {e : Effect}

/-- What becomes of the static fields and the objects is what the instruction writes. -/
structure Writes (w : Write) (s s' : Store) : Prop where
  fits : w.Fits s.statics s.heap
  statics : s'.statics = w.statics s.statics
  heap : s'.heap = w.heap s.heap

/-- What an instruction yields is what it writes. -/
theorem Yields.writes {taken : List Value} (h : i.Yields taken s e) :
    Writes (i.write taken) s e.store := by
  cases h with
  | arrayStore o x index array declared stored =>
    exact ⟨⟨_, array⟩, rfl, Heap.setArray_of_store array stored⟩
  | @putstatic f s statics x put =>
    obtain ⟨w, hw, hk, hfields⟩ := Statics.exists_of_put put
    refine ⟨(congrArg (Option.map Value.kind) hw).trans (congrArg some hk), ?_, rfl⟩
    obtain ⟨fields, nodup⟩ := statics
    obtain rfl : fields = _ := hfields
    rfl
  | newarray s fits =>
    simp only [write, fits]
    exact ⟨trivial, rfl, rfl⟩
  | _ => exact ⟨trivial, rfl, rfl⟩

end Instruction

/-- A step leaves behind what follows from its arguments, also when its results have no room. -/
theorem Action.store_of_effect {i : Instruction Value} {p : Plan} {args : Arguments p.demand}
    {below : List Value} {e : Effect} {m : Machine} (hp : i.plan? = some p)
    (hs : m.frame.stack = args.values ++ below) (he : p.effect args m.store = .ok e) :
    (Machine.leftBy (step i m)).store = e.store := by
  by_cases hr : e.HasRoom below.length m.frame.maxStack
  · rw [step_of_effect hp hs he hr]
    rfl
  · obtain ⟨n, -, hstep⟩ := step_of_full hp hs he hr
    rw [hstep]
    rfl

end StackMachine
