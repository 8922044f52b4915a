import StackMachine.Proofs.Alike
import StackMachine.Proofs.Invoking

/-!
# Tables are looked up

An execution finds static fields and methods by their names and sees no more of the tables that
they are in. So tables that give the same answers can be exchanged, in whatever order they have
come about: the execution ends in the same way, and afterwards the tables of static fields still
give the same answers. For everything that an execution is composed of this is a property of its
own, `LooksUp`, which is kept when one thing is done after another.
-/

namespace StackMachine

/-! ### The same answers -/

/-- Two tables hold the same values under the same names. -/
def Statics.SameFields (s t : Statics) : Prop := ∀ name, t.find? name = s.find? name

/-- Two stores differ at most in the tables that their static fields are in. -/
structure Store.SameFields (s t : Store) : Prop where
  locals : t.locals = s.locals
  statics : s.statics.SameFields t.statics
  heap : t.heap = s.heap

/-- Two machines differ at most in the tables that their static fields are in. -/
structure Machine.SameFields (m n : Machine) : Prop where
  frame : n.frame = m.frame
  statics : m.statics.SameFields n.statics
  heap : n.heap = m.heap

/-- Two effects differ at most in the tables that the static fields are in afterwards. -/
structure Effect.SameFields (e e' : Effect) : Prop where
  pushes : e'.pushes = e.pushes
  store : e.store.SameFields e'.store
  move : e'.move = e.move

/-- Two executions end in the same way, and leave machines with the same static fields. -/
inductive EndsSame {ε α : Type} :
    EStateM.Result ε Machine α → EStateM.Result ε Machine α → Prop where
  | ok (x : α) {m n : Machine} (h : m.SameFields n) : EndsSame (.ok x m) (.ok x n)
  | error (e : ε) {m n : Machine} (h : m.SameFields n) : EndsSame (.error e m) (.error e n)

/-- An execution ends in the same way whichever tables the static fields are in. -/
def LooksUp {ε α : Type} (a : EStateM ε Machine α) : Prop :=
  ∀ m n, m.SameFields n → EndsSame (a m) (a n)

/-- A field is given the same value in both tables, or refused for the same reason. -/
theorem Statics.SameFields.put {s t : Statics} (h : s.SameFields t) (name : String) (v : Value) :
    Agree Statics.SameFields (s.put name v) (t.put name v) := by
  cases hs : s.put name v with
  | ok s' =>
    obtain ⟨w, hw, hk, -⟩ := exists_of_put hs
    have ht : ∃ t', t.put name v = .ok t' := by
      rw [Statics.put, h name, hw]
      exact ⟨_, if_pos hk⟩
    obtain ⟨t', ht⟩ := ht
    rw [ht]
    refine .ok fun other => ?_
    rw [find?_put hs, find?_put ht, h other]
  | error e =>
    have ht : t.put name v = .error e := by
      rcases put_error hs with ⟨hnone, rfl⟩ | ⟨w, hw, hk, rfl⟩
      · rw [Statics.put, h name, hnone]
      · rw [Statics.put, h name, hw]
        exact if_neg hk
    rw [ht]
    exact .error e

/-- Tables of the same fields answer a reading in the same way. -/
theorem Statics.SameFields.get {s t : Statics} (h : s.SameFields t) (name : String) :
    t.get name = s.get name := by
  rw [Statics.get, Statics.get, h name]

namespace Machine.SameFields

variable {m n : Machine}

/-- Machines with the same fields have stores with the same fields. -/
theorem store (h : m.SameFields n) : m.store.SameFields n.store :=
  ⟨congrArg Frame.locals h.frame, h.statics, h.heap⟩

/-- What the frame becomes has no influence on the fields. -/
theorem withFrame (h : m.SameFields n) (frame : Frame) :
    (m.withFrame frame).SameFields (n.withFrame frame) :=
  ⟨rfl, h.statics, h.heap⟩

theorem withStack (h : m.SameFields n) (stack : List Value) :
    (m.withStack stack).SameFields (n.withStack stack) :=
  ⟨by rw [Machine.withStack, Machine.withStack, h.frame], h.statics, h.heap⟩

theorem withStore (h : m.SameFields n) {s t : Store} (hst : s.SameFields t) :
    (m.withStore s).SameFields (n.withStore t) :=
  ⟨by rw [Machine.withStore, Machine.withStore, h.frame, hst.locals], hst.statics, hst.heap⟩

end Machine.SameFields

/-! ### Executions -/

namespace LooksUp

variable {ε α β : Type}

theorem pure (x : α) : LooksUp (pure x : EStateM ε Machine α) := fun _ _ h => .ok x h

theorem throw (e : ε) : LooksUp (throw e : EStateM ε Machine α) := fun _ _ h => .error e h

/-- Computations that only look fields up do so one after the other. -/
theorem bind {a : EStateM ε Machine α} {f : α → EStateM ε Machine β} (ha : LooksUp a)
    (hf : ∀ x, LooksUp (f x)) : LooksUp (a >>= f) := by
  intro m n h
  have hend := ha m n h
  change EndsSame (EStateM.bind a f m) (EStateM.bind a f n)
  unfold EStateM.bind
  generalize a m = r at hend ⊢
  generalize a n = r' at hend ⊢
  cases hend with
  | ok x h => exact hf x _ _ h
  | error e h => exact .error e h

/-- What is done may depend on the frame. -/
theorem bind_frame {f : Machine → EStateM ε Machine α} {g : Frame → EStateM ε Machine α}
    (hf : ∀ m, f m = g m.frame) (hg : ∀ frame, LooksUp (g frame)) :
    LooksUp ((get : EStateM ε Machine Machine) >>= f) := by
  intro m n h
  have hget (k : Machine) : ((get : EStateM ε Machine Machine) >>= f) k = g k.frame k :=
    congrFun (hf k) k
  rw [hget, hget, h.frame]
  exact hg m.frame m n h

/-- The frame may become one that depends on the frame only. -/
theorem modify_frame (f : Frame → Frame) :
    LooksUp (modify fun m => m.withFrame (f m.frame) : EStateM ε Machine Unit) :=
  fun _ _ h => .ok () ⟨congrArg f h.frame, h.statics, h.heap⟩

end LooksUp

namespace Action

/-- A failure looks nothing up. -/
theorem looksUp_fail {α : Type} (c : Cause) : LooksUp (fail c : Action α) :=
  .bind_frame (fun _ => rfl) fun frame => .throw ⟨frame.pc, c⟩

/-- A push looks at the stack only. -/
theorem looksUp_push (v : Value) : LooksUp (push v) := by
  intro m n h
  rw [push_apply, push_apply, h.frame]
  split
  · exact .error _ h
  · exact .ok _ (h.withStack _)

theorem looksUp_pop : LooksUp pop := by
  intro m n h
  rw [pop_apply, pop_apply, h.frame]
  split
  · exact .error _ h
  · exact .ok _ (h.withStack _)

theorem looksUp_popAs (op : Opcode) (k : Kind) : LooksUp (popAs op k) := by
  refine looksUp_pop.bind fun v => ?_
  split
  · exact .pure _
  · exact looksUp_fail _

/-- Arguments are taken off the stack without regard to the fields. -/
theorem looksUp_takeAll (op : Opcode) (d : Demand) : LooksUp (takeAll op d) := by
  induction d with
  | nil => exact .pure _
  | cons o d ih =>
    cases o with
    | none => exact looksUp_pop.bind fun _ => ih.bind fun _ => .pure _
    | some k => exact (looksUp_popAs op k).bind fun _ => ih.bind fun _ => .pure _

theorem looksUp_pushAll (vs : List Value) : LooksUp (pushAll vs) := by
  induction vs with
  | nil => exact .pure _
  | cons v vs ih => exact (looksUp_push v).bind fun _ => ih

theorem looksUp_resume (result : Option Value) : LooksUp (resume result) := by
  cases result with
  | none => exact .pure _
  | some v => exact looksUp_push v

end Action

/-! ### Plans -/

/-- What follows from arguments does not depend on the table that the static fields are in. -/
theorem Plan.effect_sameFields {p : Plan} {need : Need} {flow : Flow}
    (h : p.Family need flow) (args : Arguments p.demand) {s t : Store} (hst : s.SameFields t) :
    Agree Effect.SameFields (p.effect args s) (p.effect args t) := by
  obtain ⟨_, statics, _⟩ := s
  obtain ⟨locals, statics', heap⟩ := t
  obtain ⟨rfl, hstatics, rfl⟩ := hst
  have hwrite (pushes : List Value) (locals : Locals) (heap : Heap) (move : Move) :
      Effect.SameFields ⟨pushes, ⟨locals, statics, heap⟩, move⟩
        ⟨pushes, ⟨locals, statics', heap⟩, move⟩ := ⟨rfl, ⟨rfl, hstatics, rfl⟩, rfl⟩
  have hslot (index : UInt16) (v : Value) : Agree Effect.SameFields
      (setSlot index v ⟨locals, statics, heap⟩) (setSlot index v ⟨locals, statics', heap⟩) :=
    .bind_same _ fun l => .ok (hwrite [] l heap .next)
  cases h with
  | pushing | dropping | duplicating | exchanging | negate | convert | shifting | branching
  | calling | returning | leaving => exact .ok (hwrite ..)
  | arithmetic | bitwise | compare => exact .bind_same _ fun x => .ok (hwrite ..)
  | loading op k index =>
    refine .bind_same _ fun v => ?_
    split
    · exact .ok (hwrite ..)
    · exact .error _
  | storing k index => exact hslot ..
  | incrementing op index delta =>
    refine .bind_same _ fun v => ?_
    cases v with
    | int n => exact hslot ..
    | long | float | double | reference => exact .error _
  | loadingElement op k => exact .bind_same _ fun a => .bind_same _ fun v => .ok (hwrite ..)
  | storingElement op k => exact .bind_same _ fun a => .bind_same _ fun a' => .ok (hwrite ..)
  | allocating k =>
    simp only [allocating]
    split
    · exact .error _
    · exact .ok (hwrite ..)
  | measuring op => exact .bind_same _ fun a => .ok (hwrite ..)
  | getting f =>
    have hget : statics'.get f.name = statics.get f.name := hstatics.get f.name
    change Agree _ ((statics.get f.name).mapError _ >>= _) ((statics'.get f.name).mapError _ >>= _)
    rw [hget]
    refine .bind_same _ fun v => ?_
    split
    · exact .ok (hwrite ..)
    · exact .error _
  | putting f =>
    refine ((hstatics.put f.name _).mapError FieldError.cause).bind fun s' t' hs => ?_
    exact .ok ⟨rfl, ⟨rfl, hs, rfl⟩, rfl⟩

namespace Action

/-- Writing, pushing and leading on. -/
theorem endsSame_commit {e e' : Effect} (he : e.SameFields e') {m n : Machine}
    (h : m.SameFields n) : EndsSame (commit e m) (commit e' n) := by
  obtain ⟨_, s, _⟩ := e
  obtain ⟨pushes, t, move⟩ := e'
  obtain ⟨rfl, hst, rfl⟩ := he
  have hpush : LooksUp (pushAll pushes >>= fun _ =>
      get >>= fun m => pure (move.control m.frame.pc) : Action Control) :=
    (looksUp_pushAll pushes).bind fun _ => .bind_frame (fun _ => rfl) fun frame =>
      .pure (move.control frame.pc)
  exact hpush _ _ (h.withStore hst)

/-- An instruction meets the fields in its plan only, and there by their names. -/
theorem looksUp_perform (i : Instruction Value) : LooksUp (perform i) := by
  rw [perform_eq]
  cases hp : i.plan? with
  | none => exact looksUp_fail _
  | some p =>
    refine (looksUp_takeAll _ _).bind fun args m n h => ?_
    have heffect := Plan.effect_sameFields (Instruction.family_of_plan? hp) args h.store
    rw [consequence_bind_apply, consequence_bind_apply]
    generalize p.effect args m.store = r at heffect ⊢
    generalize p.effect args n.store = r' at heffect ⊢
    cases heffect with
    | ok he => exact endsSame_commit he h
    | error c => exact looksUp_fail c _ _ h

/-- A step moves on besides, and no more. -/
theorem looksUp_step (i : Instruction Value) : LooksUp (step i) :=
  (looksUp_perform i).bind fun c =>
    (LooksUp.modify_frame fun frame => { frame with pc := frame.pc + 1 }).bind fun _ => .pure c

end Action

/-! ### Invocations -/

namespace Invocation

/-- An action remains what it is as a stretch of an invocation. -/
theorem looksUp_ofAction {α : Type} {a : Action α} (ha : LooksUp a) : LooksUp (ofAction a) := by
  intro m n h
  have hend := ha m n h
  rw [ofAction, ofAction]
  generalize a m = r at hend ⊢
  generalize a n = r' at hend ⊢
  cases hend with
  | ok x h => exact .ok x h
  | error e h => exact .error _ h

/-- A stretch in another frame works on the same fields. -/
theorem looksUp_inFrame {α : Type} (frame : Frame) {body : Invocation α} (hbody : LooksUp body) :
    LooksUp (inFrame frame body) := by
  intro m n h
  have hend := hbody _ _ (h.withFrame frame)
  rw [inFrame_apply, inFrame_apply, h.frame]
  generalize body (m.withFrame frame) = r at hend ⊢
  generalize body (n.withFrame frame) = r' at hend ⊢
  cases hend with
  | ok x h' => exact .ok x (h'.withFrame _)
  | error e h' => exact .error e (h'.withFrame _)

variable {call : MethodRef → List Value → Invocation Unit}

/-- Instructions are followed in turn, and calls come between them. -/
theorem looksUp_follow (hcall : ∀ method args, LooksUp (call method args)) (rest : Block) :
    LooksUp (follow call rest) := by
  induction rest with
  | nil => exact .bind_frame (fun _ => rfl) fun frame => .throw (.endOfBlock frame.pc)
  | cons i rest ih =>
    refine (looksUp_ofAction (Action.looksUp_step i)).bind fun c => ?_
    cases c with
    | next => exact ih
    | branch pc offset | «return» v => exact .pure _
    | invoke method args => exact (hcall method args).bind fun _ => ih

/-- An activation looks fields up only, however many branches it may still take. -/
theorem looksUp_activate (hcall : ∀ method args, LooksUp (call method args)) (block : Block)
    (branches : Nat) (rest : Block) : LooksUp (activate call block branches rest) := by
  induction branches generalizing rest with
  | zero =>
    rw [activate]
    refine (looksUp_follow hcall rest).bind fun exit => ?_
    cases exit with
    | returned v => exact .pure v
    | branched pc offset => exact .throw _
  | succ branches ih =>
    rw [activate]
    refine (looksUp_follow hcall rest).bind fun exit => ?_
    cases exit with
    | returned v => exact .pure v
    | branched pc offset =>
      dsimp only
      cases branchTarget pc offset block.length with
      | error e => exact .throw e
      | ok target =>
        exact (LooksUp.modify_frame fun frame => { frame with pc := target }).bind fun _ => ih _

/-- So does a call, however deep. A method is found whatever the fields are. -/
theorem looksUp_call (methods : Methods) (calls : Nat) (method : MethodRef) (args : List Value) :
    LooksUp (Invocation.call methods calls method args) := by
  induction calls generalizing method args with
  | zero => exact .throw _
  | succ calls ih =>
    rw [Invocation.call]
    cases methods.find? method.name with
    | none => exact .throw _
    | some body =>
      have hresult (result : Option Value) : LooksUp
          (if result.map Value.kind ≠ method.result then
            throw (.wrongResult method (result.map Value.kind))
          else ofAction (Action.resume result) : Invocation Unit) := by
        split
        · exact .throw _
        · exact looksUp_ofAction (Action.looksUp_resume result)
      exact .bind_frame (g := fun frame =>
          inFrame (Frame.new (.ofArguments args) frame.maxStack)
            (activate (Invocation.call methods calls) body branchLimit body) >>= _)
        (fun _ => rfl) fun frame =>
          (looksUp_inFrame _ (looksUp_activate ih body _ body)).bind hresult

/-- Methods that are found under the same names are the same ones. -/
theorem call_congr {methods methods' : Methods}
    (h : ∀ name, methods'.find? name = methods.find? name) (calls : Nat) :
    Invocation.call methods' calls = Invocation.call methods calls := by
  induction calls with
  | zero => rfl
  | succ calls ih =>
    funext method args
    rw [Invocation.call, Invocation.call, h method.name, ih]

/-- An invocation ends in the same way whichever tables its methods and static fields are in. -/
theorem invoke_endsSame {methods methods' : Methods}
    (hmethods : ∀ name, methods'.find? name = methods.find? name) (block : Block) {m n : Machine}
    (h : m.SameFields n) : EndsSame (invoke methods block m) (invoke methods' block n) := by
  have hinvoke : LooksUp (invoke methods block) :=
    .bind_frame (fun _ => rfl) fun frame =>
      looksUp_activate (looksUp_call methods _) block _ (block.drop frame.pc)
  have hsame : invoke methods' block = invoke methods block := by
    rw [invoke, invoke, call_congr hmethods]
  rw [hsame]
  exact hinvoke m n h

end Invocation

end StackMachine
