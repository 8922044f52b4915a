import StackMachine.Proofs.Course

/-!
# Running is repeated stepping

A run of a block executes the instruction at the present index again and again, until an
instruction raises a control event or fails, or until there is none at the index. Where the index
is by then tells these apart: at the end of the block or behind it, one past the instruction with
the event, or at the instruction that has failed. A longer block that begins with a shorter one is
run by running the shorter one first, as the index says all there is to know about the way so far.
-/

namespace StackMachine

variable {block : Block} {m m' : Machine}

/-! ### Steps -/

/-- A step that fails stays where it is, and its failure carries the same index. -/
theorem Action.pc_of_step_error {i : Instruction Value} {e : Failure}
    (h : step i m = .error e m') : e.pc = m.frame.pc ∧ m'.frame.pc = m.frame.pc := by
  cases fails_of_step h <;> exact ⟨rfl, rfl⟩

/-- A branch carries the index of its instruction. -/
theorem Action.pc_of_step_branch {i : Instruction Value} {pc : Nat} {offset : Int16}
    (h : step i m = .ok (.branch pc offset) m') : pc = m.frame.pc := by
  generalize hc : Control.branch pc offset = c at h
  cases completes_of_step h with
  | @intro p args below e plan stack effect room =>
    generalize e.move = move at hc
    cases move <;> cases hc
    rfl

/-! ### Runs -/

/-- What an execution comes to when a block is run on from where it has led, unless it has ended
in an event or a failure. -/
def Block.runOn (block : Block) :
    EStateM.Result Failure Machine Control → EStateM.Result Failure Machine Control
  | .ok .next m => Action.run block m
  | r => r

/-- A run executes the instruction at the present index, if there is one, and the block is run on
from there. -/
theorem Action.run_apply (block : Block) (m : Machine) :
    run block m = (block[m.frame.pc]?).elim (.ok .next m) fun i => block.runOn (step i m) := by
  have hrun (n : Machine) : run block n = runAll (block.drop n.frame.pc) n := rfl
  rw [hrun]
  cases hdrop : block.drop m.frame.pc with
  | nil =>
    rw [List.getElem?_eq_none (List.drop_eq_nil_iff.1 hdrop)]
    rfl
  | cons i rest =>
    obtain ⟨here, hrest⟩ := Block.of_drop_eq_cons hdrop
    rw [runAll_cons_apply, here, Option.elim_some]
    cases hs : step i m with
    | error e m' => rfl
    | ok c m' =>
      cases c with
      | next =>
        dsimp only [Block.runOn]
        rw [hrun, pc_of_step hs, hrest]
      | branch | invoke | «return» => rfl

/-- Going on does not change what a run comes to. -/
theorem Block.Continues.run_eq (h : block.Continues m m') :
    Action.run block m = Action.run block m' := by
  obtain ⟨i, here, stepped⟩ := h
  rw [Action.run_apply, here, Option.elim_some, stepped]
  rfl

/-- From every point of a run the rest of it is the run from there. -/
theorem Block.run_eq_of_visits {p : Machine} (h : (block.course m).Visits p) :
    Action.run block m = Action.run block p := by
  induction h with
  | refl => rfl
  | tail _ hnext ih => exact ih.trans hnext.run_eq

namespace RunsIn

variable {n : Nat} {r : EStateM.Result Failure Machine Control}

/-- Repeated steps come to what the run comes to. -/
theorem eq_run (h : RunsIn block n m r) : Action.run block m = r := by
  induction h with
  | finished outside =>
    rw [Action.run_apply, outside]
    rfl
  | @stopped m m' i c here stepped event =>
    rw [Action.run_apply, here, Option.elim_some, stepped]
    cases c with
    | next => exact absurd rfl event
    | branch | invoke | «return» => rfl
  | failed here stepped =>
    rw [Action.run_apply, here, Option.elim_some, stepped]
    rfl
  | next here stepped runs ih => exact (Block.Continues.run_eq ⟨_, here, stepped⟩).trans ih

/-- What is behind a block plays no part up to the end of the block, and is run from there. -/
theorem run_append (h : RunsIn block n m r) (after : Block) :
    Action.run (block ++ after) m = (block ++ after).runOn r := by
  have hhere {pc : Nat} {i : Instruction Value} (here : block[pc]? = some i) :
      (block ++ after)[pc]? = some i := by
    rw [List.getElem?_append_left (Block.lt_of_getElem? here), here]
  induction h with
  | finished => rfl
  | @stopped m m' i c here stepped event =>
    rw [(stopped (hhere here) stepped event).eq_run]
    cases c with
    | next => exact absurd rfl event
    | branch | invoke | «return» => rfl
  | failed here stepped => exact (failed (hhere here) stepped).eq_run
  | next here stepped runs ih =>
    exact (Block.Continues.run_eq ⟨_, hhere here, stepped⟩).trans ih

/-- Steps that come to no event lead to the end of the block, unless they begin behind it. -/
theorem pc_of_next (h : RunsIn block n m (.ok .next m')) :
    m'.frame.pc = max m.frame.pc block.length := by
  generalize hr : EStateM.Result.ok Control.next m' = r at h
  induction h with
  | finished outside =>
    cases hr
    exact (Nat.max_eq_left (List.getElem?_eq_none_iff.1 outside)).symm
  | stopped here stepped event =>
    cases hr
    exact absurd rfl event
  | failed => cases hr
  | next here stepped runs ih =>
    have hlt := Block.lt_of_getElem? here
    have hpc := Action.pc_of_step stepped
    have hend := ih hr
    omega

end RunsIn

/-- A run comes to the end of the block if every instruction on the way lets the next one
follow, and only then. -/
theorem Block.exists_run_eq_next_iff (block : Block) (m : Machine) :
    (∃ m', Action.run block m = .ok .next m') ↔
      ∀ p, (block.course m).Visits p → ∀ i, block[p.frame.pc]? = some i →
        ∃ p', Action.step i p = .ok .next p' := by
  constructor
  · rintro ⟨m', hrun⟩ p hvisits i here
    rw [run_eq_of_visits hvisits, Action.run_apply, here, Option.elim_some, runOn.eq_def] at hrun
    split at hrun
    · rename_i p' stepped
      exact ⟨p', stepped⟩
    · exact ⟨m', hrun⟩
  · intro hnext
    obtain ⟨last, hvisits, hend | ⟨i, here, hend⟩⟩ := block.exists_last_of_run m
    · exact ⟨last, hend.2⟩
    · obtain ⟨p', stepped⟩ := hnext last hvisits i here
      exact ⟨p', hend.trans stepped⟩

/-- A run that raises an event or fails ends with the step that does so. -/
theorem Block.exists_step_of_run {r : EStateM.Result Failure Machine Control}
    (hrun : Action.run block m = r) (hr : ∀ m', r ≠ .ok .next m') :
    ∃ p i, (block.course m).Visits p ∧ block[p.frame.pc]? = some i ∧ Action.step i p = r := by
  obtain ⟨last, hvisits, hend | ⟨i, here, hend⟩⟩ := block.exists_last_of_run m
  · exact absurd (hrun.symm.trans hend.2) (hr last)
  · exact ⟨last, i, hvisits, here, hend.symm.trans hrun⟩

/-- A run of a block from a machine is repeated stepping, and the index tells how it has ended. -/
structure Block.RunsByStepping (block : Block) (m : Machine) : Prop where
  /-- A run comes to what repeated steps come to, and these come to nothing else. -/
  run_eq_iff : ∀ r, Action.run block m = r ↔ ∃ n, RunsIn block n m r
  /-- There are no more steps than the block has instructions left. -/
  steps_le : ∀ n r, RunsIn block n m r → n ≤ block.length - m.frame.pc
  /-- The run reports nothing exactly if no step on the way raises an event or fails. -/
  next_iff : (∃ m', Action.run block m = .ok .next m') ↔
    ∀ p, (block.course m).Visits p → ∀ i, block[p.frame.pc]? = some i →
      ∃ p', Action.step i p = .ok .next p'
  /-- Without an event the index is that of the end, or where it was behind the end. -/
  pc_of_next : ∀ m', Action.run block m = .ok .next m' →
    m'.frame.pc = max m.frame.pc block.length
  /-- With an event the index is one past the instruction that has raised it, and a branch
  carries the index of its instruction. -/
  pc_of_event : ∀ c m', Action.run block m = .ok c m' → c ≠ .next →
    ∃ p i, (block.course m).Visits p ∧ block[p.frame.pc]? = some i ∧
      Action.step i p = .ok c m' ∧ m'.frame.pc = p.frame.pc + 1 ∧
      ∀ pc offset, c = .branch pc offset → pc = m'.frame.pc - 1
  /-- After a failure the index is that of the instruction that has failed, which is also the one
  that the failure carries. -/
  pc_of_failure : ∀ e m', Action.run block m = .error e m' →
    ∃ p i, (block.course m).Visits p ∧ block[p.frame.pc]? = some i ∧
      Action.step i p = .error e m' ∧ e.pc = p.frame.pc ∧ m'.frame.pc = p.frame.pc

/-- A run is its steps, one after the other. -/
theorem Block.runsByStepping (block : Block) (m : Machine) : block.RunsByStepping m where
  run_eq_iff r := by
    constructor
    · rintro rfl
      obtain ⟨n, -, hruns⟩ := run_runsIn block m
      exact ⟨n, hruns⟩
    · rintro ⟨n, hruns⟩
      exact hruns.eq_run
  steps_le _ _ hruns := hruns.le
  next_iff := block.exists_run_eq_next_iff m
  pc_of_next m' hrun := by
    obtain ⟨n, -, hruns⟩ := run_runsIn block m
    rw [hrun] at hruns
    exact hruns.pc_of_next
  pc_of_event c m' hrun hc := by
    obtain ⟨p, i, hvisits, here, stepped⟩ := exists_step_of_run hrun fun m'' heq => by
      cases heq
      exact hc rfl
    have hpc := Action.pc_of_step stepped
    refine ⟨p, i, hvisits, here, stepped, hpc, ?_⟩
    rintro pc offset rfl
    rw [hpc, Action.pc_of_step_branch stepped]
    rfl
  pc_of_failure e m' hrun := by
    obtain ⟨p, i, hvisits, here, stepped⟩ :=
      exists_step_of_run hrun fun m'' heq => by cases heq
    exact ⟨p, i, hvisits, here, stepped, Action.pc_of_step_error stepped⟩

/-- Running a block is repeated stepping, and a run can be split where one part of a block ends and
another one begins: what comes of the first part alone comes of the whole if it is an event or a
failure, and otherwise the whole is run on from where the first part has led. -/
theorem runs_iterate_steps :
    (∀ (block : Block) (m : Machine), block.RunsByStepping m) ∧
      ∀ (x y : Block) (m : Machine),
        Action.run (x ++ y) m = (x ++ y).runOn (Action.run x m) := by
  refine ⟨Block.runsByStepping, fun x y m => ?_⟩
  obtain ⟨n, -, hruns⟩ := run_runsIn x m
  exact hruns.run_append y

end StackMachine
