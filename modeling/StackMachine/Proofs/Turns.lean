import StackMachine.Proofs.Alike
import StackMachine.Proofs.Provenance
import StackMachine.Proofs.Writes

/-!
# Activations that take turns

Two activations with frames of their own share the static fields and the objects, and may hold
references to the same arrays. When the step of one writes nothing that the step of the other
reads or writes, and not both of them add an array, it does not matter which of them is taken
first: neither notices what the other has written, so each comes to the same, and the two writes
can change places.
-/

namespace StackMachine

/-- The place that a step reads, if it is the step of a read that completes. -/
def Instruction.reads? (i : Instruction Value) (m : Machine) : Option Place :=
  match i.opcode, i.field?, m.frame.stack, Action.step i m with
  | .getstatic, some f, _, .ok _ _ => some (.field f.name)
  | .arrayLoad _, _, .int index :: .reference r :: _, .ok _ _ =>
    some (.element r index.toInt.toNat)
  | _, _, _, _ => none

/-- The place that a step writes to, if it is the step of a write that completes. -/
def Instruction.writes? (i : Instruction Value) (m : Machine) : Option Place :=
  match i.opcode, i.field?, m.frame.stack, Action.step i m with
  | .putstatic, some f, _, .ok _ _ => some (.field f.name)
  | .arrayStore _, _, _ :: .int index :: .reference r :: _, .ok _ _ =>
    some (.element r index.toInt.toNat)
  | _, _, _, _ => none

/-- A step adds an array to the heap, even if it fails to push the reference. -/
def Instruction.Allocates (i : Instruction Value) (m : Machine) : Prop :=
  m.heap.objects.size < (Machine.leftBy (Action.step i m)).heap.objects.size

namespace Machine

variable {ε α : Type}

/-- What an execution comes to, apart from the machine that it leaves behind. -/
def outcome : EStateM.Result ε Machine α → Except ε α
  | .ok x _ => .ok x
  | .error e _ => .error e

/-- What an execution comes to, with another machine left behind. -/
def mapLeft (f : Machine → Machine) : EStateM.Result ε Machine α → EStateM.Result ε Machine α
  | .ok x m => .ok x (f m)
  | .error e m => .error e (f m)

/-- The machine after a write. -/
def written (m : Machine) (w : Write) : Machine := ⟨m.frame, w.statics m.statics, w.heap m.heap⟩

theorem leftBy_mapLeft (f : Machine → Machine) (r : EStateM.Result ε Machine α) :
    leftBy (mapLeft f r) = f (leftBy r) := by
  cases r <;> rfl

theorem outcome_mapLeft (f : Machine → Machine) (r : EStateM.Result ε Machine α) :
    outcome (mapLeft f r) = outcome r := by
  cases r <;> rfl

end Machine

/-- The store after a write. -/
def Store.written (s : Store) (w : Write) : Store := ⟨s.locals, w.statics s.statics, w.heap s.heap⟩

/-! ### Actions on the frame -/

/-- An action comes to the same after a write, and leaves it as it is. -/
def Action.Overlooks {α : Type} (w : Write) (a : Action α) : Prop :=
  ∀ m, a (m.written w) = Machine.mapLeft (·.written w) (a m)

namespace Action.Overlooks

variable {α β : Type} {w : Write}

theorem pure (x : α) : Overlooks w (pure x) := fun _ => rfl

theorem fail (c : Cause) : Overlooks w (fail c : Action α) := fun _ => rfl

/-- Actions that overlook a write do so one after the other. -/
theorem bind {a : Action α} {f : α → Action β} (ha : Overlooks w a) (hf : ∀ x, Overlooks w (f x)) :
    Overlooks w (a >>= f) := by
  intro m
  rw [bind_apply, bind_apply, ha m]
  cases a m with
  | ok x m' => exact hf x m'
  | error e m' => rfl

/-- A pop looks at the stack only. -/
theorem pop : Overlooks w pop := by
  intro m
  have hstack : (m.written w).frame.stack = m.frame.stack := rfl
  rw [pop_apply, pop_apply, hstack]
  cases m.frame.stack <;> rfl

theorem popAs (op : Opcode) (k : Kind) : Overlooks w (popAs op k) :=
  .bind pop fun v => by
    cases v.as? k with
    | none => exact fail _
    | some x => exact pure x

/-- A push looks at the stack and its limit only. -/
theorem push (v : Value) : Overlooks w (push v) := by
  intro m
  rw [push_apply, push_apply]
  change (if m.frame.maxStack ≤ m.frame.stack.length then _ else _) = _
  split <;> rfl

/-- Arguments are taken off the stack whatever has been written elsewhere. -/
theorem takeAll (op : Opcode) (d : Demand) : Overlooks w (takeAll op d) := by
  induction d with
  | nil => exact pure _
  | cons o d ih =>
    cases o with
    | none => exact .bind pop fun _ => .bind ih fun _ => pure _
    | some k => exact .bind (popAs op k) fun _ => .bind ih fun _ => pure _

theorem pushAll (vs : List Value) : Overlooks w (pushAll vs) := by
  induction vs with
  | nil => exact pure _
  | cons v vs ih => exact .bind (push v) fun _ => ih

end Action.Overlooks

/-! ### Arrays and fields after a write -/

namespace ArrayObject

variable {a : ArrayObject}

/-- Whether an index lies inside an array does not depend on the elements. -/
theorem load_written (a : ArrayObject) (index : Int32)
    (written : Std.ExtTreeMap (Fin a.storage.length) a.storage.kind.Carrier) :
    let a' : ArrayObject := { a with storage := { a.storage with written := written } }
    Agree (fun v v' => a'.element? index.toInt.toNat = a.element? index.toInt.toNat → v' = v)
      (a.load index) (a'.load index) := by
  intro a'
  change Agree _ ((a.position index).map a.get) ((a.position index).map a'.get)
  cases hi : a.position index with
  | error f => exact .error f
  | ok i =>
    refine .ok fun helement => ?_
    unfold position at hi
    split at hi <;> cases hi
    rename_i hinside
    have hlt : index.toInt.toNat < a.length := by omega
    have hget := helement.trans (a.element?_of_lt hlt)
    exact Option.some.inj ((a'.element?_of_lt hlt).symm.trans hget)

/-- Whether a value can be stored does not depend on the elements. -/
theorem store_written (a : ArrayObject) (index : Int32) (v : Value)
    (written : Std.ExtTreeMap (Fin a.storage.length) a.storage.kind.Carrier) :
    let a' : ArrayObject := { a with storage := { a.storage with written := written } }
    Agree (fun _ _ => True) (a.store index v) (a'.store index v) := by
  intro a'
  change Agree _ (a.position index >>= _) (a.position index >>= _)
  cases a.position index with
  | error f => exact .error f
  | ok i =>
    dsimp only [bind, Except.bind, a']
    cases a.storage.kind.narrow? v with
    | none => exact .error _
    | some x => exact .ok trivial

end ArrayObject

namespace Heap

variable {h : Heap} {w : Write} {r : Reference}

/-- A reference leads to what has become of its array, or to none before and after the write. -/
theorem arrayAt_agree (op : Opcode) (hr : ∀ a, w = .array a → r = .null ∨ h.object? r ≠ none) :
    Agree (fun a a' => a' = w.arrayAt r a) (h.arrayAt op r) ((w.heap h).arrayAt op r) := by
  rw [arrayAt, arrayAt, w.object?_heap hr]
  rcases h.object? r with _ | _ | _ | _
  · exact .error _
  · exact .ok rfl
  · exact .error _
  · exact .error _

/-- No write changes the kind of an array. -/
theorem arrayOf_agree (op : Opcode) (k : ElementKind)
    (hr : ∀ a, w = .array a → r = .null ∨ h.object? r ≠ none) :
    Agree (fun a a' => a' = w.arrayAt r a) (h.arrayOf op k r) ((w.heap h).arrayOf op k r) := by
  refine (arrayAt_agree op hr).bind fun a a' ha' => ?_
  have hdeclared : a'.declared = a.declared := by
    obtain ⟨written, h⟩ := w.arrayAt_eq r a
    rw [ha', h]
  rw [hdeclared]
  split
  · exact .ok ha'
  · exact .error _

end Heap

/-- Whether a field can be read depends on its kind only. -/
theorem Statics.get_agree {s s' : Statics} (hk : s'.kinds = s.kinds) (name : String) :
    Agree (fun v v' => v'.kind = v.kind ∧ (s'.find? name = s.find? name → v' = v))
      (s.get name) (s'.get name) := by
  have hname := congrFun hk name
  unfold kinds at hname
  unfold get
  cases hfind : s.find? name with
  | none =>
    rw [hfind] at hname
    rw [Option.map_eq_none_iff.1 hname]
    exact .error _
  | some x =>
    rw [hfind] at hname
    obtain ⟨x', hfind', hx⟩ := Option.map_eq_some_iff.1 hname
    rw [hfind']
    exact .ok ⟨hx, Option.some.inj⟩

/-- Whether a field takes a value depends on its kind only. -/
theorem Statics.put_agree {s s' : Statics} (hk : s'.kinds = s.kinds) (name : String) (v : Value) :
    Agree (fun _ _ => True) (s.put name v) (s'.put name v) := by
  have hname := congrFun hk name
  unfold kinds at hname
  unfold put
  cases hfind : s.find? name with
  | none =>
    rw [hfind] at hname
    rw [Option.map_eq_none_iff.1 hname]
    exact .error _
  | some x =>
    rw [hfind] at hname
    obtain ⟨x', hfind', hx⟩ := Option.map_eq_some_iff.1 hname
    rw [hfind']
    dsimp only
    rw [hx]
    split
    · exact .ok trivial
    · exact .error _

/-! ### Steps after a write -/

/-- A write is to nothing that a step reads or writes, and if it adds an array, then the step does
not, and nothing on the stack leads to where the array comes. -/
structure Write.Foreign (w : Write) (i : Instruction Value) (m : Machine) : Prop where
  fits : w.Fits m.statics m.heap
  reads : ∀ place, i.reads? m = some place → w.place? ≠ some place
  writes : ∀ place, i.writes? m = some place → w.place? ≠ some place
  array : ∀ a, w = .array a → ¬ i.Allocates m ∧
    ∀ v ∈ m.frame.stack, v.Known fun r => m.heap.object? r ≠ none

/-- Two effects are the same but for what they write, or they overflow the stack alike. -/
inductive Effect.Like (depth maxStack : Nat) : Effect → Effect → Prop where
  | same {pushes : List Value} {move : Move} {s s' : Store} (locals : s'.locals = s.locals) :
      Like depth maxStack ⟨pushes, s, move⟩ ⟨pushes, s', move⟩
  | full {v v' : Value} {s s' : Store} (locals : s'.locals = s.locals)
      (room : ¬ (Effect.push v s).HasRoom depth maxStack) :
      Like depth maxStack (.push v s) (.push v' s')

/-- A new array does not come where a reference among the arguments leads. -/
theorem Write.Foreign.live {w : Write} {i : Instruction Value} {m : Machine} (hw : w.Foreign i m)
    {taken below : List Value} (hs : m.frame.stack = taken ++ below) {r : Reference}
    (hr : .reference r ∈ taken) :
    ∀ a, w = .array a → r = .null ∨ m.heap.object? r ≠ none := by
  intro a ha
  have hmem : .reference r ∈ m.frame.stack := hs ▸ List.mem_append_left below hr
  exact or_iff_not_imp_left.2 ((hw.array a ha).2 _ hmem r rfl)

namespace Instruction

variable {i : Instruction Value} {p : Plan} {args : Arguments p.demand} {below : List Value}
  {m : Machine} {w : Write}

/-- Values that are read are the same, or there is no room for them. -/
theorem like_of_read (hw : w.Foreign i m) {v v' : Value} (place : Place)
    (hread : (Effect.push v m.store).HasRoom below.length m.frame.maxStack →
      i.reads? m = some place)
    (hvalue : w.place? ≠ some place → v' = v) :
    Effect.Like below.length m.frame.maxStack (.push v m.store) (.push v' (m.store.written w)) := by
  by_cases hroom : (Effect.push v m.store).HasRoom below.length m.frame.maxStack
  · obtain rfl := hvalue (hw.reads place (hread hroom))
    exact .same rfl
  · exact .full rfl hroom

/-- A step allocates when more objects follow from its arguments. -/
theorem allocates_of_size {e : Effect} (hp : i.plan? = some p)
    (hs : m.frame.stack = args.values ++ below) (he : p.effect args m.store = .ok e)
    (hlt : m.heap.objects.size < e.store.heap.objects.size) : i.Allocates m := by
  have hleft := congrArg (fun s : Store => s.heap.objects.size) (Action.store_of_effect hp hs he)
  exact Nat.lt_of_lt_of_eq hlt hleft.symm

/-- A step that makes a new array adds it to the heap. -/
theorem allocates_of_write {e : Effect} (hp : i.plan? = some p)
    (hs : m.frame.stack = args.values ++ below) (he : p.effect args m.store = .ok e)
    {a : ArrayObject} (ha : i.write args.values = .array a) : i.Allocates m := by
  refine allocates_of_size hp hs he ?_
  rw [(yields_of_effect hp he).writes.heap, ha]
  exact Nat.lt_of_lt_of_eq (Nat.lt_succ_self _) (Array.size_push ..).symm

/-- A field that is read has its kind, and its value unless the write is to it. -/
theorem getting_written {f : FieldRef} {args : Arguments (Plan.getting f).demand}
    (hw : w.Foreign i m) (hop : i.opcode = .getstatic) (hf : i.field? = some f)
    (hp : i.plan? = some (.getting f)) (hs : m.frame.stack = args.values ++ below) :
    Agree (Effect.Like below.length m.frame.maxStack) ((Plan.getting f).effect args m.store)
      ((Plan.getting f).effect args (m.store.written w)) := by
  have hkinds := w.kinds_statics hw.fits
  refine ((Statics.get_agree hkinds f.name).mapError _).bind_of_ok fun v v' hv hvv' => ?_
  rw [hvv'.1]
  split
  · rename_i hk
    have he : (Plan.getting f).effect args m.store = .ok (.push v m.store) := by
      change ((m.statics.get f.name).mapError _ >>= _) = _
      rw [hv]
      exact if_pos hk
    refine .ok (like_of_read hw (.field f.name) (fun hroom => ?_) fun hplace =>
      hvv'.2 (w.find?_statics hplace m.statics))
    unfold reads?
    rw [hop, hf, Action.step_of_effect hp hs he hroom]
  · exact .error _

/-- An element that is read has its value unless the write is to it. -/
theorem loadingElement_written {k : ElementKind}
    {args : Arguments (Plan.loadingElement (.arrayLoad k) k).demand} (hw : w.Foreign i m)
    (hop : i.opcode = .arrayLoad k) (hp : i.plan? = some (.loadingElement (.arrayLoad k) k))
    (hs : m.frame.stack = args.values ++ below) :
    Agree (Effect.Like below.length m.frame.maxStack)
      ((Plan.loadingElement (.arrayLoad k) k).effect args m.store)
      ((Plan.loadingElement (.arrayLoad k) k).effect args (m.store.written w)) := by
  obtain ⟨index, r, _⟩ := args
  have hr := hw.live hs (List.mem_cons_of_mem _ (List.mem_cons_self ..))
  refine (Heap.arrayOf_agree _ k hr).bind_of_ok fun a a' ha haa' => ?_
  obtain ⟨written, hwritten⟩ := w.arrayAt_eq r a
  have hload := a.load_written index written
  rw [← hwritten, ← haa'] at hload
  refine (hload.mapError _).bind_of_ok fun v v' hv hvv' => ?_
  have he : (Plan.loadingElement (.arrayLoad k) k).effect (index, r, ()) m.store =
      .ok (.push v m.store) := by
    change (m.heap.arrayOf _ k r >>= _) = _
    rw [ha]
    change ((a.load index).mapError _ >>= _) = _
    rw [hv]
    rfl
  refine .ok (like_of_read hw (.element r index.toInt.toNat) (fun hroom => ?_)
    fun hplace => hvv' (haa' ▸ w.element?_arrayAt hplace a))
  unfold reads?
  rw [hop, Action.step_of_effect hp hs he hroom, hs]
  rfl

/-- A new array comes to the same reference, since the write has not added one. -/
theorem allocating_written {k : ElementKind} {args : Arguments (Plan.allocating k).demand}
    (hw : w.Foreign i m) (hp : i.plan? = some (.allocating k))
    (hs : m.frame.stack = args.values ++ below) :
    Agree (Effect.Like below.length m.frame.maxStack) ((Plan.allocating k).effect args m.store)
      ((Plan.allocating k).effect args (m.store.written w)) := by
  change Agree _ (if args.1 < 0 then _ else _) (if args.1 < 0 then _ else _)
  by_cases hn : args.1 < 0
  · rw [if_pos hn, if_pos hn]
    exact .error _
  · have hallocates : i.Allocates m := allocates_of_size hp hs (if_neg hn)
      (Nat.lt_of_lt_of_eq (Nat.lt_succ_self _) (Array.size_push ..).symm)
    have hsize := w.size_heap (fun a ha => (hw.array a ha).1 hallocates) m.heap
    rw [if_neg hn, if_neg hn]
    change Agree _ (.ok (Effect.push (.reference (.to m.heap.objects.size)) _))
      (.ok (Effect.push (.reference (.to (w.heap m.heap).objects.size)) _))
    rw [hsize]
    exact .ok (.same rfl)

/-- An instruction does the same with its arguments after a foreign write, but for what it writes
itself. Only reading a field or an element and adding an array depend on more than the kinds and
the lengths of what is there. -/
theorem effect_written (hw : w.Foreign i m) (hp : i.plan? = some p)
    (hs : m.frame.stack = args.values ++ below) :
    Agree (Effect.Like below.length m.frame.maxStack) (p.effect args m.store)
      (p.effect args (m.store.written w)) := by
  cases plans_of_plan? hp with
  | getstatic f => exact getting_written hw rfl rfl hp hs
  | putstatic f =>
    have hput := Statics.put_agree (w.kinds_statics hw.fits) f.name (.of f.kind args.1)
    exact (hput.mapError _).bind fun _ _ _ => .ok (.same rfl)
  | arrayLoad k => exact loadingElement_written hw rfl rfl hs
  | arrayStore k =>
    obtain ⟨x, index, r, _⟩ := args
    have hr := hw.live hs
      (List.mem_cons_of_mem _ (List.mem_cons_of_mem _ (List.mem_cons_self ..)))
    refine (Heap.arrayOf_agree _ k hr).bind fun a a' haa' => ?_
    obtain ⟨written, hwritten⟩ := w.arrayAt_eq r a
    have hstore := a.store_written index (.of k.valueKind x) written
    rw [← hwritten, ← haa'] at hstore
    exact (hstore.mapError _).bind fun _ _ _ => .ok (.same rfl)
  | arraylength =>
    obtain ⟨r, _⟩ := args
    have hr := hw.live hs (List.mem_cons_self ..)
    refine (Heap.arrayAt_agree _ hr).bind fun a a' haa' => ?_
    obtain ⟨written, hwritten⟩ := w.arrayAt_eq r a
    rw [haa', hwritten]
    exact .ok (.same rfl)
  | newarray | anewarray => exact allocating_written hw hp hs
  | load =>
    refine Agree.bind_same _ fun v => ?_
    split
    · exact .ok (.same rfl)
    · exact .error _
  | store => exact Agree.bind_same _ fun _ => .ok (.same rfl)
  | iinc =>
    refine Agree.bind_same _ fun v => ?_
    split
    · exact Agree.bind_same _ fun _ => .ok (.same rfl)
    · exact .error _
  | arithmetic => exact Agree.bind_same _ fun _ => .ok (.same rfl)
  | _ => exact .ok (.same rfl)

/-- An instruction that writes to a place pushes nothing, and its step, if it completes, writes to
that place. -/
theorem Yields.writes?_of_write {taken : List Value} {e : Effect} (h : i.Yields taken m.store e)
    (hs : m.frame.stack = taken ++ below) {place : Place}
    (hplace : (i.write taken).place? = some place) :
    e.pushes = [] ∧ ∀ c m', Action.step i m = .ok c m' → i.writes? m = some place := by
  generalize hstore : m.store = s at h
  cases h with
  | putstatic =>
    cases hplace
    refine ⟨rfl, fun c m' hstep => ?_⟩
    unfold writes?
    rw [hstep]
    rfl
  | arrayStore =>
    cases hplace
    refine ⟨rfl, fun c m' hstep => ?_⟩
    unfold writes?
    rw [hstep, hs]
    rfl
  | newarray s fits =>
    simp only [write, fits, Option.elim_some] at hplace
    cases hplace
  | _ => cases hplace

/-- What an instruction writes in the end is at the place that its step writes to. -/
theorem writes?_of_write {e : Effect} (hp : i.plan? = some p)
    (hs : m.frame.stack = args.values ++ below) (he : p.effect args m.store = .ok e)
    {place : Place} (hplace : (i.write args.values).place? = some place) :
    i.writes? m = some place := by
  obtain ⟨hpushes, hwrites⟩ := (yields_of_effect hp he).writes?_of_write hs hplace
  exact hwrites _ _ (Action.step_of_effect hp hs he (.inl hpushes))

end Instruction

/-- The write of a step and one that is foreign to it change places. -/
theorem Instruction.store_written {i : Instruction Value} {p : Plan} {args : Arguments p.demand}
    {below : List Value} {m : Machine} {w : Write} {e e' : Effect} (hw : w.Foreign i m)
    (hp : i.plan? = some p) (hs : m.frame.stack = args.values ++ below)
    (he : p.effect args m.store = .ok e) (he' : p.effect args (m.store.written w) = .ok e')
    (hlike : e.Like below.length m.frame.maxStack e') : e'.store = e.store.written w := by
  have hwrites := (yields_of_effect hp he).writes
  have hwrites' := (yields_of_effect hp he').writes
  have hplace (place : Place) (h : w.place? = some place) :
      (i.write args.values).place? ≠ some place :=
    fun h' => hw.writes place (writes?_of_write hp hs he h') h
  have harray (a a' : ArrayObject) (h : w = .array a) : i.write args.values ≠ .array a' :=
    fun h' => (hw.array a h).1 (allocates_of_write hp hs he h')
  have hlocals : e'.store.locals = e.store.locals := by cases hlike <;> assumption
  have hstatics : e'.store.statics = w.statics e.store.statics := by
    rw [hwrites'.statics, hwrites.statics]
    exact Write.statics_comm hplace m.statics
  have hheap : e'.store.heap = w.heap e.store.heap := by
    rw [hwrites'.heap, hwrites.heap]
    exact Write.heap_comm hw.fits hwrites.fits hplace harray
  change Store.mk e'.store.locals e'.store.statics e'.store.heap = _
  rw [hlocals, hstatics, hheap]
  rfl

namespace Action

/-- Effects that are the same but for the write are committed in the same way. -/
theorem commit_written {e e' : Effect} {w : Write} {m : Machine}
    (hlike : e.Like m.frame.stack.length m.frame.maxStack e')
    (hstore : e'.store = e.store.written w) :
    commit e' (m.written w) = Machine.mapLeft (·.written w) (commit e m) := by
  cases hlike with
  | @same pushes move s s' =>
    obtain rfl : s' = s.written w := hstore
    exact Overlooks.bind (.pushAll pushes) (fun _ => fun _ => rfl) (m.withStore s)
  | @full v v' s s' locals room =>
    obtain rfl : s' = s.written w := hstore
    have hfull : m.frame.maxStack ≤ m.frame.stack.length :=
      Nat.le_of_lt_succ (Nat.not_le.1 fun h => room (.inr h))
    have hpush (x : Value) (n : Machine) (hn : n.frame = { m.frame with locals := s.locals }) :
        (pushAll [x] >>= fun _ => Pure.pure Control.next : Action Control) n =
          .error ⟨m.frame.pc, .stackOverflow⟩ n := by
      rw [pushAll, bind_apply, bind_apply, push_apply, hn, if_pos hfull]
    exact (hpush v' ((m.written w).withStore (s.written w)) rfl).trans
      (congrArg (Machine.mapLeft (·.written w)) (hpush v (m.withStore s) rfl)).symm

/-- A step comes to the same after a foreign write, and leaves it as it is. -/
theorem step_written {i : Instruction Value} {m : Machine} {w : Write} (hw : w.Foreign i m) :
    step i (m.written w) = Machine.mapLeft (·.written w) (step i m) := by
  have hcarry (p : Plan) (hp : i.plan? = some p) : carryOut i.opcode p (m.written w) =
      Machine.mapLeft (·.written w) (carryOut i.opcode p m) := by
    rcases takeAll_cases i.opcode p.demand m with ⟨args, below, hs⟩ | ⟨n, -, c, -, htake⟩
    · have hagree := Instruction.effect_written hw hp hs
      have hstore : (m.written w).store = m.store.written w := rfl
      rw [carryOut_of_stack i.opcode hs, carryOut_of_stack (m := m.written w) i.opcode hs, hstore]
      generalize he : p.effect args m.store = x at hagree ⊢
      generalize he' : p.effect args (m.store.written w) = x' at hagree ⊢
      cases hagree with
      | error c => rfl
      | ok hlike =>
        exact commit_written (m := m.withStack below) hlike
          (Instruction.store_written hw hp hs he he' hlike)
    · rw [carryOut, bind_apply, bind_apply, Overlooks.takeAll i.opcode p.demand m, htake]
      rfl
  rw [step_apply, step_apply, perform_eq]
  cases hp : i.plan? with
  | none => rfl
  | some p =>
    rw [Option.elim_some, hcarry p hp]
    cases carryOut i.opcode p m <;> rfl

end Action

/-! ### Two steps -/

/-- A step makes a write. -/
structure Instruction.Makes (i : Instruction Value) (m : Machine) (w : Write) : Prop where
  fits : w.Fits m.statics m.heap
  statics : (Machine.leftBy (Action.step i m)).statics = w.statics m.statics
  heap : (Machine.leftBy (Action.step i m)).heap = w.heap m.heap
  place : ∀ place, w.place? = some place → i.writes? m = some place
  array : ∀ a, w = .array a → i.Allocates m

/-- Arguments that an effect follows from tell the write, even if the stack overflows. -/
theorem Instruction.makes_write {i : Instruction Value} {p : Plan} {args : Arguments p.demand}
    {below : List Value} {m : Machine} {e : Effect} (hp : i.plan? = some p)
    (hs : m.frame.stack = args.values ++ below) (he : p.effect args m.store = .ok e) :
    i.Makes m (i.write args.values) := by
  have hwrites := (yields_of_effect hp he).writes
  have hleft := Action.store_of_effect hp hs he
  exact ⟨hwrites.fits, (congrArg Store.statics hleft).trans hwrites.statics,
    (congrArg Store.heap hleft).trans hwrites.heap, fun _ => writes?_of_write hp hs he,
    fun _ => allocates_of_write hp hs he⟩

/-- Every step makes a write, if only that of nothing. -/
theorem Instruction.exists_makes (i : Instruction Value) (m : Machine) : ∃ w, i.Makes m w := by
  have hnothing {r : EStateM.Result Failure Machine Control} (hr : Action.step i m = r)
      (hstatics : (Machine.leftBy r).statics = m.statics)
      (hheap : (Machine.leftBy r).heap = m.heap) : i.Makes m .nothing :=
    ⟨trivial, hr ▸ hstatics, hr ▸ hheap, nofun, nofun⟩
  rcases Action.step_cases i m with ⟨c, m', hstep, hc⟩ | ⟨e, m', hstep, hf⟩
  · cases hc with
    | intro plan stack effect => exact ⟨_, makes_write plan stack effect⟩
  · cases hf with
    | overflow plan stack effect => exact ⟨_, makes_write plan stack effect⟩
    | operand | argument | refused => exact ⟨_, hnothing hstep rfl rfl⟩

/-- Of two steps, neither writes what the other reads or writes, and not both add an array. -/
structure Instruction.Independent (i j : Instruction Value) (m n : Machine) : Prop where
  one : ∀ place, i.writes? m = some place → j.reads? n ≠ some place ∧ j.writes? n ≠ some place
  other : ∀ place, j.writes? n = some place → i.reads? m ≠ some place ∧ i.writes? m ≠ some place
  arrays : ¬ (i.Allocates m ∧ j.Allocates n)

/-- What comes of it when two activations each take a step. -/
structure Turns where
  /-- What the step of one comes to, and the frame that it leaves behind. -/
  one : Except Failure Control × Frame
  /-- What the step of the other comes to, and the frame that it leaves behind. -/
  other : Except Failure Control × Frame
  statics : Statics
  heap : Heap

/-- The same, with the activations the other way round. -/
def Turns.swap (t : Turns) : Turns := ⟨t.other, t.one, t.statics, t.heap⟩

/-- One activation takes a step, and then another, on the static fields and the objects that the
first one leaves behind. -/
def takeTurns (i j : Instruction Value) (f g : Frame) (s : Statics) (h : Heap) : Turns :=
  let r := Action.step i ⟨f, s, h⟩
  let m := Machine.leftBy r
  let r' := Action.step j ⟨g, m.statics, m.heap⟩
  let m' := Machine.leftBy r'
  ⟨(Machine.outcome r, m.frame), (Machine.outcome r', m'.frame), m'.statics, m'.heap⟩

section

variable {i j : Instruction Value} {f g : Frame} {s : Statics} {h : Heap} {w : Write}

/-- Independence does not depend on which step is named first. -/
theorem Instruction.Independent.symm {m n : Machine} (hij : i.Independent j m n) :
    j.Independent i n m :=
  ⟨hij.other, hij.one, fun harrays => hij.arrays harrays.symm⟩

/-- What one of two independent steps writes is foreign to the other. -/
theorem Instruction.Makes.foreign (hw : i.Makes ⟨f, s, h⟩ w)
    (hij : i.Independent j ⟨f, s, h⟩ ⟨g, s, h⟩) (hg : g.Within fun r => h.object? r ≠ none) :
    w.Foreign j ⟨g, s, h⟩ where
  fits := hw.fits
  reads place hread hplace := (hij.one place (hw.place place hplace)).1 hread
  writes place hwrite hplace := (hij.one place (hw.place place hplace)).2 hwrite
  array a ha := ⟨fun hallocates => hij.arrays ⟨hw.array a ha, hallocates⟩, hg.stack⟩

/-- The activation that comes second does not notice the first one. -/
theorem takeTurns_eq (hw : i.Makes ⟨f, s, h⟩ w) (hforeign : w.Foreign j ⟨g, s, h⟩) :
    takeTurns i j f g s h =
      let r := Action.step i ⟨f, s, h⟩
      let r' := Action.step j ⟨g, s, h⟩
      let m' := Machine.leftBy r'
      ⟨(Machine.outcome r, (Machine.leftBy r).frame), (Machine.outcome r', m'.frame),
        w.statics m'.statics, w.heap m'.heap⟩ := by
  have hshared : (⟨g, (Machine.leftBy (Action.step i ⟨f, s, h⟩)).statics,
      (Machine.leftBy (Action.step i ⟨f, s, h⟩)).heap⟩ : Machine) =
        Machine.written ⟨g, s, h⟩ w := by
    rw [hw.statics, hw.heap]
    rfl
  unfold takeTurns
  dsimp only
  rw [hshared, Action.step_written hforeign, Machine.outcome_mapLeft, Machine.leftBy_mapLeft]
  rfl

/-- It does not matter which of two activations takes its step first, if neither step writes what
the other reads or writes and not both add an array: each step comes to the same and leaves the
same frame, and the static fields and the objects are the same in the end. -/
theorem takeTurns_comm (independent : i.Independent j ⟨f, s, h⟩ ⟨g, s, h⟩)
    (one : f.Within fun r => h.object? r ≠ none) (other : g.Within fun r => h.object? r ≠ none) :
    takeTurns i j f g s h = (takeTurns j i g f s h).swap := by
  obtain ⟨w, hw⟩ := i.exists_makes ⟨f, s, h⟩
  obtain ⟨w', hw'⟩ := j.exists_makes ⟨g, s, h⟩
  have hforeign := hw.foreign independent other
  have hforeign' := hw'.foreign independent.symm one
  have hplace (place : Place) (hp : w.place? = some place) : w'.place? ≠ some place :=
    fun hp' => hforeign.writes place (hw'.place place hp') hp
  rw [takeTurns_eq hw hforeign, takeTurns_eq hw' hforeign', Turns.swap]
  dsimp only
  rw [hw.statics, hw.heap, hw'.statics, hw'.heap, Write.statics_comm hplace,
    Write.heap_comm hw.fits hw'.fits hplace fun a a' ha ha' =>
      independent.arrays ⟨hw.array a ha, hw'.array a' ha'⟩]

end

/-- Storing the first element of an array and loading the second one through another reference to
the same array can change places. -/
theorem takeTurns_comm_iastore :
    let h := (Heap.empty.alloc (.array (.zeroed .int 2))).2
    let f : Frame := ⟨[.int 7, .int 0, .reference (.to 0)], .zeroed 1, 3, 4⟩
    let g : Frame := ⟨[.int 1, .reference (.to 0)], .zeroed 1, 5, 4⟩
    let i : Instruction Value := ⟨.arrayStore .int, .none⟩
    let j : Instruction Value := ⟨.arrayLoad .int, .none⟩
    i.writes? ⟨f, .empty, h⟩ = some (.element (.to 0) 0) ∧
      j.reads? ⟨g, .empty, h⟩ = some (.element (.to 0) 1) ∧
      takeTurns i j f g .empty h = (takeTurns j i g f .empty h).swap := by
  intro h f g i j
  have hwrites : i.writes? ⟨f, .empty, h⟩ = some (.element (.to 0) 0) := rfl
  have hreads : j.reads? ⟨g, .empty, h⟩ = some (.element (.to 0) 1) := rfl
  have hnone : j.writes? ⟨g, .empty, h⟩ = none := rfl
  have independent : i.Independent j ⟨f, .empty, h⟩ ⟨g, .empty, h⟩ := by
    refine ⟨fun place hplace => ?_, fun place hplace => ?_, fun hallocates => ?_⟩
    · rw [hwrites] at hplace
      cases hplace
      rw [hreads, hnone]
      exact ⟨by simp, nofun⟩
    · rw [hnone] at hplace
      cases hplace
    · exact absurd hallocates.2 (Nat.lt_irrefl _)
  have hlive : h.object? (.to 0) ≠ none := nofun
  have hslots : (Locals.zeroed 1).Within fun r => h.object? r ≠ none := by
    intro v hv r hr
    obtain rfl : v = .int 0 := (Array.mem_replicate.1 hv).2
    cases hr
  have one : f.Within fun r => h.object? r ≠ none := by
    refine ⟨fun v hv r hr _ => ?_, hslots⟩
    subst hr
    obtain rfl : r = .to 0 := by simpa [f] using hv
    exact hlive
  have other : g.Within fun r => h.object? r ≠ none := by
    refine ⟨fun v hv r hr _ => ?_, hslots⟩
    subst hr
    obtain rfl : r = .to 0 := by simpa [g] using hv
    exact hlive
  exact ⟨hwrites, hreads, takeTurns_comm independent one other⟩

end StackMachine
