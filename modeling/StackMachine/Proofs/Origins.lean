import StackMachine.Proofs.Provenance

/-!
# Where references come from

A program cannot make up a reference. Every one that it holds is one that it was given on
the stack, in a slot, in a static field or as a constant, one that it has read from an array
to which those lead, or one to an array that it has created. This holds at every point of
an execution, of what is passed to methods and returned from them, and of the machine that
is left in the end. Arrays to which no such reference leads are not written to.
-/

namespace StackMachine

/-- A machine holds a reference on its stack, in a slot or in a static field. -/
inductive Machine.Holds (m : Machine) (r : Reference) : Prop where
  | stack (mem : .reference r ∈ m.frame.stack)
  | slot (mem : .reference r ∈ m.frame.locals.slots)
  | field (name : String) (found : m.statics.find? name = some (.reference r))

/-- The references to which others lead, by way of the arrays on a heap. -/
inductive Heap.Reaches (h : Heap) (K : Reference → Prop) : Reference → Prop where
  | root {r : Reference} (known : K r) : h.Reaches K r
  | element {r r' : Reference} {a : ArrayObject} {n : Nat} (reached : h.Reaches K r)
      (array : h.array? r = some a) (element : a.element? n = some (.reference r')) :
      h.Reaches K r'

/-- What is reached is reached from somewhere. -/
theorem Heap.Reaches.exists_root {h : Heap} {K : Reference → Prop} {r : Reference}
    (hr : h.Reaches K r) : ∃ r, K r := by
  induction hr with
  | root known => exact ⟨_, known⟩
  | element _ _ _ ih => exact ih

/-- A block has a reference among its constants. -/
def Block.Offers (block : Block) (r : Reference) : Prop :=
  ∃ i ∈ block, i.operand = .constant (.reference r)

/-- The values in the outcome of an execution, if it completes. -/
def Value.givenBy {ε α : Type} (values : α → List Value) : EStateM.Result ε Machine α → List Value
  | .ok x _ => values x
  | .error _ _ => []

namespace Course

variable {Point : Type} (c : Course Point)

/-- A reference is a constant of a block that the execution comes to execute. -/
def Offers (r : Reference) : Prop := ∃ b, c.Executes b ∧ b.Offers r

/-- Where a reference comes from, when the execution has come to a heap. -/
inductive Origin (h : Heap) (r : Reference) : Prop where
  /-- What the first machine held has led to it. -/
  | held (reached : (c.machine c.start).heap.Reaches (c.machine c.start).Holds r)
  | constant (offered : c.Offers r)
  /-- A constant that is an array has led to it. -/
  | loaded {r' : Reference} {a : ArrayObject} (offered : c.Offers r')
      (array : (c.machine c.start).heap.array? r' = some a)
      (reached : (c.machine c.start).heap.Reaches (· = r') r)
  /-- It leads to an array that was not there at first. -/
  | allocated (new : (c.machine c.start).heap.object? r = none)
      (array : ∃ a, h.array? r = some a)

/-- All references that a machine leads to, and those among some values, have an origin. -/
structure Traces (m : Machine) (vs : List Value) : Prop where
  machine : m.Within (c.Origin m.heap)
  values : ∀ v ∈ vs, v.Known (c.Origin m.heap)
  /-- Objects to which no reference with an origin leads are what they were. -/
  others : ∀ r, ¬ c.Origin m.heap r → m.heap.object? r = (c.machine c.start).heap.object? r
  /-- No object has become another one, and only arrays have been added. -/
  grows : (c.machine c.start).heap.Grows m.heap

/-- All references that an execution has come to when it ends have an origin, whether it
completes or fails. -/
abbrev TracesResult {ε α : Type} (values : α → List Value) (r : EStateM.Result ε Machine α) :
    Prop :=
  c.Traces (Machine.leftBy r) (Value.givenBy values r)

/-- No reference is made up in an execution. -/
structure ForgesNothing : Prop where
  /-- The references in all activations have an origin. -/
  frames : ∀ p, c.Visits p → ∀ f ∈ c.frames p, f.Within (c.Origin (c.machine p).heap)
  points : ∀ p, c.Visits p → c.Traces (c.machine p) []
  /-- This holds behind every instruction too, also if it fails. -/
  steps : ∀ p i, c.Visits p → c.AtInstruction p i →
    c.TracesResult Control.values (Action.step i (c.machine p))
  /-- A new array is none of the objects that there were before. -/
  creates : ∀ p i control m', i.opcode = .newarray ∨ i.opcode = .anewarray →
    Action.step i (c.machine p) = .ok control m' →
    ∃ r, i.Creates (c.machine p) m' r ∧ (c.machine p).heap.object? r = none
  /-- Arrays that are created later are other ones. -/
  distinct : ∀ p p' q (i j : Instruction Value) m' n' r r', c.AtInstruction p i →
    i.Creates (c.machine p) m' r → c.next p p' → c.Reaches p' q →
    j.Creates (c.machine q) n' r' → r ≠ r'

variable {c} {m : Machine} {vs : List Value} {h h' : Heap}

/-- An origin stays one as objects are added. -/
theorem Origin.mono {r : Reference} (hg : h.Grows h') (hr : c.Origin h r) : c.Origin h' r := by
  rcases hr with ⟨reached⟩ | ⟨offered⟩ | ⟨offered, array, reached⟩ | ⟨new, a, array⟩
  · exact .held reached
  · exact .constant offered
  · exact .loaded offered array reached
  · obtain ⟨a', array', -⟩ := hg.array array
    exact .allocated new ⟨a', array'⟩

/-- What has an origin on a later heap has had one, or is new. -/
theorem orAdded_origin (hg : (c.machine c.start).heap.Grows h) (hg' : h.Grows h') :
    OrAdded h h' (c.Origin h) = c.Origin h' := by
  funext r
  refine propext ⟨?_, ?_⟩
  · rintro (hr | ⟨hnone, hsome⟩)
    · exact hr.mono hg'
    · obtain ⟨o, ho⟩ := Option.ne_none_iff_exists'.1 hsome
      obtain ⟨a, rfl, -⟩ := hg'.added r o hnone ho
      exact .allocated (hg.object?_eq_none hnone) ⟨a, Heap.array?_eq_some_iff.2 ho⟩
  · rintro (⟨reached⟩ | ⟨offered⟩ | ⟨offered, array, reached⟩ | ⟨new, a, array⟩)
    · exact .inl (.held reached)
    · exact .inl (.constant offered)
    · exact .inl (.loaded offered array reached)
    · cases ho : h.object? r with
      | none =>
        refine .inr ⟨ho, ?_⟩
        rw [Heap.array?_eq_some_iff.1 array]
        exact nofun
      | some o =>
        obtain ⟨a, rfl, -⟩ := hg.added r o new ho
        exact .inl (.allocated new ⟨a, Heap.array?_eq_some_iff.2 ho⟩)

/-- At the start every reference is held from the start. -/
theorem traces_start : c.Traces (c.machine c.start) [] where
  machine := by
    refine ⟨⟨?_, ?_⟩, ?_, ?_⟩
    · rintro v hv r rfl -
      exact .held (.root (.stack hv))
    · rintro v hv r rfl -
      exact .held (.root (.slot hv))
    · rintro name v hv r rfl -
      exact .held (.root (.field name hv))
    · rintro r a n v (⟨reached⟩ | ⟨offered⟩ | ⟨offered, array, reached⟩ | ⟨new, -⟩) ha hv r' rfl -
      · exact .held (.element reached ha hv)
      · exact .loaded offered ha (.element (.root rfl) ha hv)
      · exact .loaded offered array (.element reached ha hv)
      · rw [Heap.array?_eq_some_iff.1 ha] at new
        cases new
  values := nofun
  others _ _ := rfl
  grows := .refl _

/-- A step from a machine whose references have an origin leaves such a machine. -/
theorem Traces.step {i : Instruction Value} (ht : c.Traces m vs)
    (hconstant : ∀ v, i.operand = .constant v → v.Known (c.Origin m.heap)) :
    c.TracesResult Control.values (Action.step i m) := by
  have hgrows := Action.grows_of_step i m
  have hwithin := Action.within_of_step ht.machine hconstant
  have hothers := fun r => Action.untouched_of_step (r := r) (i := i) ht.machine
  simp only [orAdded_origin ht.grows hgrows] at hwithin hothers
  refine ⟨hwithin, ?_, fun r hr => ?_, ht.grows.trans hgrows⟩
  · cases hstep : Action.step i m with
    | error e m' => exact nofun
    | ok control m' =>
      rw [hstep] at hgrows
      intro v hv
      exact (Action.values_known_of_step ht.machine hstep v hv).mono fun r => .mono hgrows
  · exact (hothers r hr).trans (ht.others r fun hold => hr (hold.mono hgrows))

/-- Another activation may go on with the static fields and the objects. -/
theorem Traces.of_shared {m' : Machine} (ht : c.Traces m vs) (hstatics : m'.statics = m.statics)
    (hheap : m'.heap = m.heap) (hframe : m'.frame.Within (c.Origin m.heap)) : c.Traces m' [] := by
  obtain ⟨frame, statics, heap⟩ := m'
  cases hstatics
  cases hheap
  exact ⟨⟨hframe, ht.machine.fields, ht.machine.elements⟩, nofun, ht.others, ht.grows⟩

/-- What an instruction at a point offers has an origin. -/
theorem known_of_atInstruction {p : Point} {i : Instruction Value} (hp : c.Visits p)
    (here : c.AtInstruction p i) (v : Value) (hv : i.operand = .constant v) :
    v.Known (c.Origin h) := by
  rintro r rfl -
  exact .constant ⟨c.block p, ⟨p, hp, rfl⟩, i, List.mem_of_getElem? here, hv⟩

/-- What holds of the references at every point holds of an execution whose points are left by
its instructions. -/
theorem forgesNothing_of_points
    (points : ∀ p, c.Visits p → c.Traces (c.machine p) [] ∧
      ∀ f ∈ c.frames p, f.Within (c.Origin (c.machine p).heap))
    (left : ∀ p p' i, c.AtInstruction p i → c.next p p' →
      (c.machine p').heap = (Machine.leftBy (Action.step i (c.machine p))).heap)
    (grows : ∀ p q, c.Reaches p q → (c.machine p).heap.Grows (c.machine q).heap) :
    c.ForgesNothing where
  frames p hp := (points p hp).2
  points p hp := (points p hp).1
  steps p i hp here := (points p hp).1.step (known_of_atInstruction hp here)
  creates p i control m' hop hstep := by
    obtain ⟨r, hcreates⟩ := Instruction.creates_of_step hop hstep
    exact ⟨r, hcreates, hcreates.exists_array.1⟩
  distinct p p' q i j m' n' r r' here hcreates hnext hreaches hlater := by
    rintro rfl
    obtain ⟨-, size, rest, a, -, -, ha, -⟩ := hcreates.exists_array
    have hheap := left p p' i here hnext
    rw [hcreates.stepped] at hheap
    change (c.machine p').heap = m'.heap at hheap
    rw [← hheap] at ha
    obtain ⟨a', ha', -⟩ := (grows p' q hreaches).array ha
    have hnone := hlater.exists_array.1
    rw [Heap.array?_eq_some_iff.1 ha'] at hnone
    cases hnone

end Course

/-! ### Runs of a block -/

/-- So every reference comes from somewhere wherever a run comes. -/
theorem Block.traces_of_reaches {block : Block} {m n : Machine} (h : (block.course m).Visits n) :
    (block.course m).Traces n [] := by
  induction h with
  | refl => exact Course.traces_start
  | @tail n n' hn hnext ih =>
    obtain ⟨i, here, hs⟩ := hnext
    have hstep := ih.step (Course.known_of_atInstruction hn here)
    rw [hs] at hstep
    exact hstep

/-- A run of a block forges no reference. -/
theorem Block.forgesNothing (block : Block) (m : Machine) : (block.course m).ForgesNothing := by
  refine Course.forgesNothing_of_points (fun n hn => ?_) (fun n n' i here hnext => ?_)
    fun n n' => grows_of_reaches
  · have ht := traces_of_reaches hn
    exact ⟨ht, List.forall_mem_singleton.2 ht.machine.frame⟩
  · obtain ⟨i', here', hs⟩ := hnext
    obtain rfl : i = i' := Option.some.inj (here.symm.trans here')
    rw [show Action.step i ((block.course m).machine n) = _ from hs]
    rfl

/-! ### Invocations -/

/-- New slots hold no references but those among the arguments. -/
theorem Locals.within_ofArguments {K : Reference → Prop} {args : List Value}
    (h : ∀ v ∈ args, v.Known K) : (Locals.ofArguments args).Within K := by
  intro v hv
  rw [ofArguments, List.mem_toArray] at hv
  rcases List.mem_append.1 hv with hv | hv
  · exact h v hv
  · rw [List.eq_of_mem_replicate hv]
    exact Value.known_int 0

namespace FlatMachine

variable {methods : Methods} {f g : FlatMachine} {K K' : Reference → Prop}

/-- Every frame of a flat machine holds known references only. -/
def FramesWithin (K : Reference → Prop) (f : FlatMachine) : Prop :=
  ∀ a ∈ f.activations, a.frame.Within K

/-- A control event brings values into a frame only if it carries them. -/
theorem Obeys.framesWithin {c : Control} (h : Obeys methods f c g) (hf : f.FramesWithin K)
    (hvalues : ∀ v ∈ c.values, v.Known K) : g.FramesWithin K := by
  cases h with
  | stays => exact hf
  | lands target =>
    obtain ⟨htop, hcallers⟩ := List.forall_mem_cons.1 hf
    exact List.forall_mem_cons.2 ⟨⟨htop.stack, htop.slots⟩, hcallers⟩
  | enters found =>
    exact List.forall_mem_cons.2 ⟨⟨nofun, Locals.within_ofArguments hvalues⟩, hf⟩
  | @resumes v caller method callers stack waiting pushed =>
    rw [FramesWithin, activations, waiting, List.map_cons] at hf
    obtain ⟨-, hf⟩ := List.forall_mem_cons.1 hf
    obtain ⟨hcaller, hcallers⟩ := List.forall_mem_cons.1 hf
    refine List.forall_mem_cons.2 ⟨⟨?_, hcaller.slots⟩, hcallers⟩
    rcases pushed with rfl | ⟨x, rfl, rfl⟩
    · exact hcaller.stack
    · exact List.forall_mem_cons.2 ⟨hvalues x (.head _), hcaller.stack⟩

/-- A move brings values into a frame only if its step has left them there, or its control
event carries them. -/
theorem framesWithin_of_move {i : Instruction Value} (here : f.top.block[f.top.frame.pc]? = some i)
    (hf : f.FramesWithin K) (hframe : (Machine.leftBy (Action.step i f.machine)).frame.Within K)
    (hvalues : ∀ v ∈ Value.givenBy Control.values (Action.step i f.machine), v.Known K) :
    (f.move methods).machine.FramesWithin K := by
  have hleft : ∀ m, m.frame.Within K → (f.withMachine m).FramesWithin K := fun m hm =>
    List.forall_mem_cons.2 ⟨hm, (List.forall_mem_cons.1 hf).2⟩
  rw [move_of_step here]
  cases hstep : Action.step i f.machine with
  | error e m =>
    rw [hstep] at hframe
    exact hleft m hframe
  | ok c m =>
    rw [hstep] at hframe hvalues
    exact (obeys methods (f.withMachine m) c).framesWithin (hleft m hframe) hvalues

variable {block : Block} {m : Machine}

/-- What holds of all references before a move holds of them after it. -/
theorem traces_of_move (hf : (course methods block m).Visits f)
    (ht : (course methods block m).Traces f.machine [])
    (hframes : f.FramesWithin ((course methods block m).Origin f.heap)) :
    (course methods block m).Traces (f.move methods).machine.machine [] ∧
      (f.move methods).machine.FramesWithin
        ((course methods block m).Origin (f.move methods).machine.heap) := by
  cases here : f.top.block[f.top.frame.pc]? with
  | none =>
    rw [move_of_end here]
    exact ⟨ht, hframes⟩
  | some i =>
    obtain ⟨hstatics, hheap⟩ := @move_shared methods f i here
    have hstep := ht.step (Course.known_of_atInstruction hf here)
    have hold := fun a ha =>
      (hframes a ha).mono fun r => Course.Origin.mono (Action.grows_of_step i f.machine)
    have hg := @framesWithin_of_move methods f _ i here hold hstep.machine.frame hstep.values
    refine ⟨hstep.of_shared hstatics hheap (hg _ (.head _)), ?_⟩
    rw [hheap]
    exact hg

/-- Every reference in any activation comes from somewhere wherever an invocation comes. -/
theorem traces_of_reaches (h : (course methods block m).Visits f) :
    (course methods block m).Traces f.machine [] ∧
      f.FramesWithin ((course methods block m).Origin f.heap) := by
  induction h with
  | refl =>
    have ht := Course.traces_start (c := course methods block m)
    exact ⟨ht, List.forall_mem_singleton.2 ht.machine.frame⟩
  | @tail f g hf hnext ih =>
    have hmove : f.move methods = .running g := hnext
    have hg := traces_of_move hf ih.1 ih.2
    rw [hmove] at hg
    exact hg

/-- An invocation forges no reference. -/
theorem forgesNothing (methods : Methods) (block : Block) (m : Machine) :
    (course methods block m).ForgesNothing := by
  refine Course.forgesNothing_of_points (fun f hf => ?_) (fun f g i here hnext => ?_)
    fun f g => grows_of_reaches
  · obtain ⟨ht, hframes⟩ := traces_of_reaches hf
    exact ⟨ht, List.forall_mem_map.2 hframes⟩
  · have hmove : f.move methods = .running g := hnext
    have hshared := (@move_shared methods f i here).2
    rw [hmove] at hshared
    exact hshared

/-- The value that an invocation returns is one that an instruction returns. -/
theorem return_of_returned {v : Option Value} (h : f.move methods = .returned v g) :
    ∃ i m', f.top.block[f.top.frame.pc]? = some i ∧
      Action.step i f.machine = .ok (.return v) m' := by
  cases here : f.top.block[f.top.frame.pc]? with
  | none =>
    rw [move_of_end here] at h
    cases h
  | some i =>
    rw [move_of_step here] at h
    refine ⟨i, ?_⟩
    cases hstep : Action.step i f.machine with
    | error e m' =>
      rw [hstep] at h
      cases h
    | ok c m' =>
      rw [hstep] at h
      refine ⟨m', rfl, ?_⟩
      cases c with
      | next => cases h
      | branch pc offset =>
        change (f.withMachine m').branch pc offset = _ at h
        unfold branch at h
        dsimp only at h
        split at h
        · cases h
        · split at h <;> cases h
      | invoke method args =>
        change (f.withMachine m').call methods method args = _ at h
        unfold call at h
        split at h
        · cases h
        · split at h <;> cases h
      | «return» v' =>
        change (f.withMachine m').giveBack v' = _ at h
        unfold giveBack at h
        split at h
        · cases h
          rfl
        · dsimp only at h
          split at h
          · cases h
          · split at h
            · cases h
            · split at h <;> cases h

/-- The activation that was there first is one of those that there are. -/
theorem bottom_mem (top : Activation) (callers : List Caller) :
    bottom top callers ∈ top :: callers.map Caller.activation := by
  induction callers generalizing top with
  | nil => exact .head _
  | cons c callers ih => exact .tail _ (ih c.activation)

/-- The machine that the outermost activation sees. -/
theorem traces_outermost (ht : (course methods block m).Traces f.machine [])
    (hframes : f.FramesWithin ((course methods block m).Origin f.heap)) :
    (course methods block m).Traces f.outermost [] :=
  ht.of_shared rfl rfl (hframes _ (bottom_mem f.top f.callers))

/-- The result of an invocation comes from somewhere, and so does what it leaves. -/
theorem tracesResult_invoke (methods : Methods) (block : Block) (m : Machine) :
    (course methods block m).TracesResult Option.toList (Invocation.invoke methods block m) := by
  obtain ⟨last, hvisits, hlast⟩ := exists_last_of_invoke methods block m
  obtain ⟨ht, hframes⟩ := traces_of_reaches hvisits
  have hmove := traces_of_move hvisits ht hframes
  rcases hlast with ⟨v, g, hg, hinvoke⟩ | ⟨e, g, hg, hinvoke⟩
  · obtain ⟨i, m', -, hstep⟩ := return_of_returned hg
    have hvalues := Action.values_known_of_step ht.machine hstep
    have hgrows := grows_of_move methods last
    rw [hg] at hmove hgrows
    rw [hinvoke]
    have houtermost := traces_outermost hmove.1 hmove.2
    exact { houtermost with values := fun x hx => (hvalues x hx).mono fun r => .mono hgrows }
  · rw [hg] at hmove
    rw [hinvoke]
    exact traces_outermost hmove.1 hmove.2

/-- An invocation executes its block and the bodies of methods only. -/
theorem block_of_executes {b : Block} (h : (course methods block m).Executes b) :
    b = block ∨ ∃ name, methods.find? name = some b := by
  obtain ⟨f, hf, rfl⟩ := h
  have hblocks : ∀ a ∈ f.activations,
      a.block = block ∨ ∃ name, methods.find? name = some a.block := by
    induction hf with
    | refl => exact List.forall_mem_singleton.2 (.inl rfl)
    | @tail f g hf hnext ih =>
      have hchanges := changes_of_move (show f.move methods = .running g from hnext)
      generalize f.activations = before at hchanges ih
      generalize g.activations = after at hchanges
      cases hchanges with
      | next | branch =>
        obtain ⟨htop, hbelow⟩ := List.forall_mem_cons.1 ih
        exact List.forall_mem_cons.2 ⟨htop, hbelow⟩
      | @call a below frame callee name body inside pc left found =>
        obtain ⟨htop, hbelow⟩ := List.forall_mem_cons.1 ih
        exact List.forall_mem_cons.2 ⟨.inr ⟨name, found⟩, List.forall_mem_cons.2 ⟨htop, hbelow⟩⟩
      | giveBack =>
        exact List.forall_mem_cons.2 (List.forall_mem_cons.1 (List.forall_mem_cons.1 ih).2)
  exact hblocks f.top (.head _)

end FlatMachine

/-- An instruction that loads a constant yields the one in its operand, and nothing else. -/
theorem Instruction.Yields.constant_of_load {i : Instruction Value} {taken : List Value}
    {s : Store} {e : Effect} (h : i.Yields taken s e)
    (hop : i.opcode = .ldc ∨ i.opcode = .ldcWide ∨ i.opcode = .ldc2) :
    ∃ v, i.operand = .constant v ∧ taken = [] ∧ e = .push v s := by
  cases h with
  | ldc s fits | ldcWide s fits | ldc2 s fits =>
    exact ⟨_, operand_of_constant? fits, rfl, rfl⟩
  | _ => rcases hop with hop | hop | hop <;> cases hop

/-- An instruction that loads a constant pushes the one in its operand, and leaves everything
else as it is. -/
theorem Instruction.pushes_constant {i : Instruction Value} {m m' : Machine} {c : Control}
    (hop : i.opcode = .ldc ∨ i.opcode = .ldcWide ∨ i.opcode = .ldc2)
    (h : Action.step i m = .ok c m') :
    ∃ v, i.operand = .constant v ∧ m'.frame.stack = v :: m.frame.stack ∧ m'.store = m.store := by
  cases Action.completes_of_step h with
  | @intro p args below e plan stack effect room =>
    obtain ⟨v, hoperand, htaken, rfl⟩ := (yields_of_effect plan effect).constant_of_load hop
    rw [htaken] at stack
    exact ⟨v, hoperand, congrArg (v :: ·) stack.symm, rfl⟩

/-- The values in the control event of a run come from somewhere, and so does what it leaves. -/
theorem Block.tracesResult_run (block : Block) (m : Machine) :
    (block.course m).TracesResult Control.values (Action.run block m) := by
  obtain ⟨last, hvisits, hlast⟩ := block.exists_last_of_run m
  have ht := traces_of_reaches hvisits
  rcases hlast with ⟨-, hrun⟩ | ⟨i, here, hrun⟩
  · rw [hrun]
    exact ht
  · rw [hrun]
    exact ht.step (Course.known_of_atInstruction hvisits here)

/-- References cannot be forged. Wherever an invocation or a run of a block comes, and however
it ends, each reference in an activation, in a static field, in an array to which one of these
leads, among the arguments of a call or in a result has been held from the start, is a constant
of a block that is executed, has been led to by one of these, or is one to an array that has been
created. Every other array still holds what it held at the start. New arrays are none of the
objects that there were, strings and class literals stay what they are, and a constant is the
same each time that it is pushed. -/
theorem references_not_forged (methods : Methods) (block : Block) (m : Machine) :
    (FlatMachine.course methods block m).ForgesNothing ∧
      (FlatMachine.course methods block m).TracesResult Option.toList
        (Invocation.invoke methods block m) ∧
      (block.course m).ForgesNothing ∧
      (block.course m).TracesResult Control.values (Action.run block m) ∧
      ∀ (i : Instruction Value) n c n',
        i.opcode = .ldc ∨ i.opcode = .ldcWide ∨ i.opcode = .ldc2 → Action.step i n = .ok c n' →
        ∃ v, i.operand = .constant v ∧ n'.frame.stack = v :: n.frame.stack ∧ n'.store = n.store :=
  ⟨FlatMachine.forgesNothing methods block m, FlatMachine.tracesResult_invoke methods block m,
    block.forgesNothing m, block.tracesResult_run m,
    fun _ _ _ _ hop hstep => Instruction.pushes_constant hop hstep⟩

/-- A constant that is an array leads to references that are neither constants themselves nor
held from the start: here to a string, which the block reads from the array and returns. -/
theorem not_forall_returned_held_or_constant :
    ¬ ∀ (methods : Methods) (block : Block) (m m' : Machine) (r : Reference),
      Invocation.invoke methods block m = .ok (some (.reference r)) m' → r ≠ .null →
        m.heap.Reaches m.Holds r ∨ (FlatMachine.course methods block m).Offers r ∨
          m.heap.object? r = none := by
  intro hforall
  let h : Heap := ⟨#[.string "x", .array (.ofStorage (.ofList .reference [.to 0]))]⟩
  let block : Block :=
    [⟨.ldc, .constant (.reference (.to 1))⟩, ⟨.constant (.int 1), .none⟩,
      ⟨.arrayLoad .reference, .none⟩, ⟨.returnValue .reference, .none⟩]
  let m : Machine := ⟨.new (.ofArguments []) Frame.defaultMaxStack, .empty, h⟩
  have hgiven : Value.givenBy Option.toList (Invocation.invoke .empty block m) =
      [.reference (.to 0)] := by decide +kernel
  obtain ⟨m', hinvoke⟩ :
      ∃ m', Invocation.invoke .empty block m = .ok (some (.reference (.to 0))) m' := by
    rcases hinvoke : Invocation.invoke .empty block m with ⟨_ | v, m'⟩ | ⟨e, m'⟩ <;>
      rw [hinvoke] at hgiven <;> cases hgiven
    exact ⟨m', rfl⟩
  have hholds : ∀ r, ¬ m.Holds r := by
    rintro r (hmem | hmem | ⟨name, hfound⟩)
    · cases hmem
    · simp [m, Frame.new, Locals.ofArguments, Locals.minimum] at hmem
    · cases hfound
  rcases hforall .empty block m m' (.to 0) hinvoke (by simp) with hreaches | hoffers | hnone
  · obtain ⟨r, hr⟩ := hreaches.exists_root
    exact hholds r hr
  · obtain ⟨b, hexecutes, i, hi, hoperand⟩ := hoffers
    rcases FlatMachine.block_of_executes hexecutes with rfl | ⟨name, hname⟩
    · have hconstants : ∀ i ∈ block, i.operand ≠ .constant (.reference (.to 0)) := by decide
      exact hconstants i hi hoperand
    · cases hname
  · cases hnone

end StackMachine
