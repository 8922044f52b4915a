import Mathlib.Logic.Relation
import StackMachine.Proofs.Termination

/-!
# The course of an execution

What holds of an execution from its beginning to its end holds at the points that it
comes by, and of the machine that it leaves behind, whether it completes or fails. A run
of a block comes by one machine after each instruction that another one follows; an
invocation comes by one flat machine after each move. Both end with one more step, so a
property is carried to the end by knowing what a single step does to it.
-/

namespace StackMachine

/-- The machine that an execution leaves behind, however it ends. -/
def Machine.leftBy {ε α : Type} : EStateM.Result ε Machine α → Machine
  | .ok _ m => m
  | .error _ m => m

/-- An execution, told by the points that it comes by. -/
structure Course (Point : Type) where
  /-- The machine of the running activation. -/
  machine : Point → Machine
  /-- The frames of all activations, those that wait included. -/
  frames : Point → List Frame
  /-- The block that the running activation executes. -/
  block : Point → Block
  /-- The execution comes from one point to the next. -/
  next : Point → Point → Prop
  /-- Where the execution begins. -/
  start : Point

namespace Course

variable {Point : Type} (c : Course Point)

/-- The execution comes from one point to another. -/
abbrev Reaches : Point → Point → Prop := Relation.ReflTransGen c.next

/-- The execution comes by a point. -/
abbrev Visits (p : Point) : Prop := c.Reaches c.start p

/-- An instruction is the next one to be executed. -/
def AtInstruction (p : Point) (i : Instruction Value) : Prop :=
  (c.block p)[(c.machine p).frame.pc]? = some i

/-- The execution comes to execute a block. -/
def Executes (b : Block) : Prop := ∃ p, c.Visits p ∧ c.block p = b

end Course

/-! ### Runs of a block -/

/-- An instruction of a block is executed, and the run goes on with the next one. -/
def Block.Continues (block : Block) (m m' : Machine) : Prop :=
  ∃ i, block[m.frame.pc]? = some i ∧ Action.step i m = .ok .next m'

/-- The course of a run of a block. -/
def Block.course (block : Block) (m : Machine) : Course Machine where
  machine := id
  frames n := [n.frame]
  block _ := block
  next := block.Continues
  start := m

/-- A run of a block goes on as long as it can. It ends behind the last instruction, or with what
the step makes that it executes last. -/
theorem RunsIn.exists_end {block : Block} {n : Nat} {m : Machine}
    {r : EStateM.Result Failure Machine Control} (h : RunsIn block n m r) :
    ∃ last, Relation.ReflTransGen block.Continues m last ∧ (∀ m', ¬ block.Continues last m') ∧
      (block[last.frame.pc]? = none ∧ r = .ok .next last ∨
        ∃ i, block[last.frame.pc]? = some i ∧ r = Action.step i last) := by
  have hstops {m : Machine} {i : Instruction Value} (here : block[m.frame.pc]? = some i)
      (hne : ∀ m', Action.step i m ≠ .ok .next m') : ∀ m', ¬ block.Continues m m' := by
    rintro m' ⟨i', here', stepped⟩
    obtain rfl : i = i' := Option.some.inj (here.symm.trans here')
    exact hne m' stepped
  induction h with
  | @finished m outside =>
    refine ⟨m, .refl, ?_, .inl ⟨outside, rfl⟩⟩
    rintro m' ⟨i, here, -⟩
    rw [outside] at here
    cases here
  | @stopped m m' i c here stepped event =>
    refine ⟨m, .refl, hstops here fun m'' hnext => event ?_, .inr ⟨i, here, stepped.symm⟩⟩
    rw [stepped] at hnext
    cases hnext
    rfl
  | @failed m m' i e here stepped =>
    refine ⟨m, .refl, hstops here fun m'' hnext => ?_, .inr ⟨i, here, stepped.symm⟩⟩
    rw [stepped] at hnext
    cases hnext
  | @next m m' i n r here stepped runs ih =>
    obtain ⟨last, hreaches, hlast⟩ := ih
    exact ⟨last, .head ⟨i, here, stepped⟩ hreaches, hlast⟩

/-- A run comes to a point at which it ends, with what the instruction there leads to. -/
theorem Block.exists_end_of_run (block : Block) (m : Machine) :
    ∃ last, (block.course m).Visits last ∧ (∀ m', ¬ block.Continues last m') ∧
      (block[last.frame.pc]? = none ∧ Action.run block m = .ok .next last ∨
        ∃ i, block[last.frame.pc]? = some i ∧ Action.run block m = Action.step i last) := by
  obtain ⟨n, -, hruns⟩ := run_runsIn block m
  exact hruns.exists_end

theorem Block.exists_last_of_run (block : Block) (m : Machine) :
    ∃ last, (block.course m).Visits last ∧
      (block[last.frame.pc]? = none ∧ Action.run block m = .ok .next last ∨
        ∃ i, block[last.frame.pc]? = some i ∧ Action.run block m = Action.step i last) := by
  obtain ⟨last, hvisits, -, hlast⟩ := block.exists_end_of_run m
  exact ⟨last, hvisits, hlast⟩

/-! ### Invocations -/

/-- The flat machine after a move, whatever the move leads to. -/
def Moved.machine : Moved → FlatMachine
  | running f => f
  | returned _ f => f
  | failed _ f => f

namespace FlatMachine

variable {methods : Methods} {f g : FlatMachine}

/-- The course of an invocation. -/
def course (methods : Methods) (block : Block) (m : Machine) : Course FlatMachine where
  machine := machine
  frames f := f.activations.map Activation.frame
  block f := f.top.block
  next := Moves methods
  start := start block m

/-- What follows from a control event. -/
def obey (methods : Methods) (f : FlatMachine) : Control → Moved
  | .next => .running f
  | .branch pc offset => f.branch pc offset
  | .invoke method args => f.call methods method args
  | .return v => f.giveBack v

/-- A move is a step and what follows from its control event. -/
theorem move_of_step {i : Instruction Value} (here : f.top.block[f.top.frame.pc]? = some i) :
    f.move methods = match Action.step i f.machine with
      | .error e m => .failed (.failure e) (f.withMachine m)
      | .ok c m => (f.withMachine m).obey methods c := by
  rw [move, here]
  dsimp only
  rcases Action.step i f.machine with ⟨_ | _ | _ | _, m⟩ | ⟨e, m⟩ <;> rfl

/-- A move at the end of a block changes nothing. -/
theorem move_of_end (outside : f.top.block[f.top.frame.pc]? = none) :
    f.move methods = .failed (.endOfBlock f.top.frame.pc) f := by
  rw [move, outside]

/-- What a control event does to a flat machine, also where it leads to a failure. -/
inductive Obeys (methods : Methods) (f : FlatMachine) : Control → FlatMachine → Prop where
  | stays {c : Control} : Obeys methods f c f
  | lands {pc : Nat} {offset : Int16} (target : Nat) :
      Obeys methods f (.branch pc offset) (f.land target)
  | enters {method : MethodRef} {args : List Value} {body : Block}
      (found : methods.find? method.name = some body) :
      Obeys methods f (.invoke method args)
        { f with
          top := ⟨body, .new (.ofArguments args) f.top.frame.maxStack, 0⟩
          callers := ⟨f.top, method⟩ :: f.callers }
  /-- The caller goes on, with the result on its stack if that is what it waits for. -/
  | resumes {v : Option Value} {caller : Activation} {method : MethodRef}
      {callers : List Caller} {stack : List Value}
      (waiting : f.callers = ⟨caller, method⟩ :: callers)
      (pushed : stack = caller.frame.stack ∨ ∃ x, v = some x ∧ stack = x :: caller.frame.stack) :
      Obeys methods f (.return v)
        { f with
          top := { caller with frame := { caller.frame with stack := stack } }
          callers := callers }

/-- What a control event leads to obeys it. -/
theorem obeys (methods : Methods) (f : FlatMachine) (c : Control) :
    Obeys methods f c (f.obey methods c).machine := by
  cases c with
  | next => exact .stays
  | branch pc offset =>
    change Obeys methods f _ (f.branch pc offset).machine
    unfold branch
    dsimp only
    split
    · exact .stays
    · split
      · exact .lands _
      · exact .stays
  | invoke method args =>
    change Obeys methods f _ (f.call methods method args).machine
    unfold call
    split
    · exact .stays
    · split
      · exact .stays
      · rename_i body found
        exact .enters found
  | «return» v =>
    change Obeys methods f _ (f.giveBack v).machine
    unfold giveBack
    split
    · exact .stays
    · rename_i caller method callers waiting
      dsimp only
      split
      · exact .resumes waiting (.inl rfl)
      · cases v with
        | none => exact .resumes waiting (.inl rfl)
        | some x =>
          dsimp only
          split
          · exact .resumes waiting (.inl rfl)
          · exact .resumes waiting (.inr ⟨x, rfl, rfl⟩)

/-- The static fields and the objects after a move are those after its step. -/
theorem move_shared {i : Instruction Value} (here : f.top.block[f.top.frame.pc]? = some i) :
    (f.move methods).machine.statics = (Machine.leftBy (Action.step i f.machine)).statics ∧
      (f.move methods).machine.heap = (Machine.leftBy (Action.step i f.machine)).heap := by
  rw [move_of_step here]
  cases Action.step i f.machine with
  | error e m => exact ⟨rfl, rfl⟩
  | ok c m =>
    have hobeys := obeys methods (f.withMachine m) c
    dsimp only
    generalize ((f.withMachine m).obey methods c).machine = g at hobeys ⊢
    cases hobeys <;> exact ⟨rfl, rfl⟩

/-- The flat machine comes to a halt with a last move. -/
theorem Halts.exists_last {r : EStateM.Result InvocationError Machine (Option Value)}
    (h : f.Halts methods r) :
    ∃ last, Relation.ReflTransGen (Moves methods) f last ∧
      ((∃ v g, last.move methods = .returned v g ∧ r = .ok v g.outermost) ∨
        ∃ e g, last.move methods = .failed e g ∧ r = .error e g.outermost) := by
  induction h with
  | @returned f f' v moved => exact ⟨f, .refl, .inl ⟨v, f', moved, rfl⟩⟩
  | @failed f f' e moved => exact ⟨f, .refl, .inr ⟨e, f', moved, rfl⟩⟩
  | @running f f' r moved halts ih =>
    obtain ⟨last, hreaches, hlast⟩ := ih
    exact ⟨last, .head moved hreaches, hlast⟩

/-- An invocation ends with a last move of the flat machine. -/
theorem exists_last_of_invoke (methods : Methods) (block : Block) (m : Machine) :
    ∃ last, (course methods block m).Visits last ∧
      ((∃ v g, last.move methods = .returned v g ∧
          Invocation.invoke methods block m = .ok v g.outermost) ∨
        ∃ e g, last.move methods = .failed e g ∧
          Invocation.invoke methods block m = .error e g.outermost) :=
  (halts_invoke methods block m).exists_last

end FlatMachine

end StackMachine
