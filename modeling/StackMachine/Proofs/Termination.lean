import Mathlib.Logic.Relation
import StackMachine.Proofs.Refinement

/-!
# Every invocation ends

The flat machine makes its moves within bounds: so many callers, so many branches of an
activation, so many instructions of a block. What its activations can still do at most is
a number. An activation can pass its block once for each branch that it may still take,
and each of its instructions weighs as much as everything that a call from there can lead
to. This number goes down with every move, also where a branch leads back, where a callee
starts to count its branches anew, and where a caller goes on.
-/

namespace StackMachine

/-! ### Runs of a block -/

/-- A run of a block executes a number of instructions, the one that fails or that ends the
run included. -/
inductive RunsIn (block : Block) :
    Nat → Machine → EStateM.Result Failure Machine Control → Prop where
  | finished {m : Machine} (outside : block[m.frame.pc]? = none) : RunsIn block 0 m (.ok .next m)
  | stopped {m m' : Machine} {i : Instruction Value} {c : Control}
      (here : block[m.frame.pc]? = some i) (stepped : Action.step i m = .ok c m')
      (event : c ≠ .next) : RunsIn block 1 m (.ok c m')
  | failed {m m' : Machine} {i : Instruction Value} {e : Failure}
      (here : block[m.frame.pc]? = some i) (stepped : Action.step i m = .error e m') :
      RunsIn block 1 m (.error e m')
  | next {m m' : Machine} {i : Instruction Value} {n : Nat}
      {r : EStateM.Result Failure Machine Control}
      (here : block[m.frame.pc]? = some i) (stepped : Action.step i m = .ok .next m')
      (runs : RunsIn block n m' r) : RunsIn block (n + 1) m r

theorem Block.lt_of_getElem? {block : Block} {pc : Nat} {i : Instruction Value}
    (h : block[pc]? = some i) : pc < block.length :=
  (List.getElem?_eq_some_iff.1 h).1

/-- A run executes no more instructions than there are from its first one on. -/
theorem RunsIn.le {block : Block} {n : Nat} {m : Machine}
    {r : EStateM.Result Failure Machine Control} (h : RunsIn block n m r) :
    n ≤ block.length - m.frame.pc := by
  induction h with
  | finished => exact Nat.zero_le _
  | stopped here | failed here =>
    have := Block.lt_of_getElem? here
    omega
  | next here stepped runs ih =>
    have := Block.lt_of_getElem? here
    rw [Action.pc_of_step stepped] at ih
    omega

/-- A run goes on behind an instruction if the instruction leads there. -/
theorem Action.runAll_cons_apply (i : Instruction Value) (rest : Block) (m : Machine) :
    Action.runAll (i :: rest) m = match Action.step i m with
      | .ok .next m' => Action.runAll rest m'
      | r => r := by
  rw [Action.runAll, Action.bind_apply]
  rcases Action.step i m with ⟨_ | _ | _ | _, m'⟩ | _ <;> rfl

/-- What comes of executing what a block has left comes of a run of it. -/
theorem runsIn_runAll {block rest : Block} {m : Machine} (hrest : block.drop m.frame.pc = rest) :
    ∃ n, RunsIn block n m (Action.runAll rest m) := by
  induction rest generalizing m with
  | nil => exact ⟨0, .finished (List.getElem?_eq_none (List.drop_eq_nil_iff.1 hrest))⟩
  | cons i rest ih =>
    obtain ⟨hi, hrest⟩ := Block.of_drop_eq_cons hrest
    rw [Action.runAll_cons_apply]
    cases hs : Action.step i m with
    | error e m' => exact ⟨1, .failed hi hs⟩
    | ok c m' =>
      cases c with
      | next =>
        rw [← Action.pc_of_step hs] at hrest
        obtain ⟨n, hn⟩ := ih hrest
        exact ⟨n + 1, .next hi hs hn⟩
      | branch pc offset | invoke method args | «return» v =>
        exact ⟨1, .stopped hi hs Control.noConfusion⟩

/-- A run comes to an end after at most as many instructions as the block has left. -/
theorem run_runsIn (block : Block) (m : Machine) :
    ∃ n ≤ block.length - m.frame.pc, RunsIn block n m (Action.run block m) := by
  obtain ⟨n, hn⟩ := runsIn_runAll (rfl : block.drop m.frame.pc = _)
  exact ⟨n, hn.le, hn⟩

/-- The length of the longest block among a block and the bodies of the methods. -/
def Methods.longest (methods : Methods) (block : Block) : Nat :=
  methods.bodies.foldr (fun named longest => max named.2.length longest) block.length

section Longest

variable (methods : Methods) (block : Block)

/-- The block itself is no longer than the longest one. -/
theorem Methods.le_longest : block.length ≤ methods.longest block := by
  obtain ⟨bodies⟩ := methods
  induction bodies with
  | nil => exact Nat.le_refl _
  | cons named bodies ih => exact Nat.le_trans ih (Nat.le_max_right ..)

theorem Methods.body_le_longest (name : String) (body : Block)
    (h : methods.find? name = some body) : body.length ≤ methods.longest block := by
  obtain ⟨bodies⟩ := methods
  induction bodies with
  | nil => cases h
  | cons named bodies ih =>
    unfold find? at h
    rw [List.lookup_cons] at h
    split at h
    · cases h
      exact Nat.le_max_left ..
    · exact Nat.le_trans (ih h) (Nat.le_max_right ..)

end Longest

namespace FlatMachine

variable {methods : Methods}

/-! ### What a move changes -/

/-- The activations, the running one first. -/
def activations (f : FlatMachine) : List Activation := f.top :: f.callers.map Caller.activation

/-- What a move does to the activations if the machine goes on. -/
inductive Changes (methods : Methods) : List Activation → List Activation → Prop where
  /-- The next instruction follows. -/
  | next {a : Activation} {below : List Activation} {frame : Frame}
      (inside : a.frame.pc < a.block.length) (pc : frame.pc = a.frame.pc + 1) :
      Changes methods (a :: below) ({ a with frame := frame } :: below)
  /-- The activation takes one of the branches that it may take. -/
  | branch {a : Activation} {below : List Activation} {frame : Frame}
      (inside : a.frame.pc < a.block.length) (left : a.branches < branchLimit) :
      Changes methods (a :: below) (⟨a.block, frame, a.branches + 1⟩ :: below)
  /-- A method begins, as the activation has moved on to wait for it. -/
  | call {a : Activation} {below : List Activation} {frame callee : Frame} {name : String}
      {body : Block}
      (inside : a.frame.pc < a.block.length) (pc : frame.pc = a.frame.pc + 1)
      (left : below.length < callLimit) (found : methods.find? name = some body) :
      Changes methods (a :: below) (⟨body, callee, 0⟩ :: { a with frame := frame } :: below)
  /-- The activation is over, and the one that waits goes on where it was. -/
  | giveBack {a caller : Activation} {below : List Activation} {frame : Frame}
      (inside : a.frame.pc < a.block.length) (pc : frame.pc = caller.frame.pc) :
      Changes methods (a :: caller :: below) ({ caller with frame := frame } :: below)

variable {f f' : FlatMachine}

/-- A branch that is taken is within its limit and comes to an instruction. -/
theorem branch_running {pc : Nat} {offset : Int16} (h : f.branch pc offset = .running f') :
    f.top.branches < branchLimit ∧ ∃ target, f' = f.land target := by
  unfold branch at h
  dsimp only at h
  split at h
  · cases h
  · rename_i hleft
    split at h
    · cases h
      exact ⟨by omega, _, rfl⟩
    · cases h

/-- A call that is made is within its limit and starts the body of a method. -/
theorem call_running {method : MethodRef} {args : List Value}
    (h : f.call methods method args = .running f') :
    f.callers.length < callLimit ∧ ∃ body frame, methods.find? method.name = some body ∧
      f'.activations = ⟨body, frame, 0⟩ :: f.activations := by
  unfold call at h
  split at h
  · cases h
  · rename_i hleft
    split at h
    · cases h
    · rename_i body hbody
      cases h
      exact ⟨by omega, body, _, hbody, rfl⟩

/-- A result is given back to the caller beneath, where it was. -/
theorem giveBack_running {result : Option Value} (h : f.giveBack result = .running f') :
    ∃ caller below frame, f.activations = f.top :: caller :: below ∧
      frame.pc = caller.frame.pc ∧
      f'.activations = { caller with frame := frame } :: below := by
  unfold giveBack activations at *
  split at h
  · cases h
  · rename_i caller method callers hcallers
    refine ⟨caller, callers.map Caller.activation, ?_⟩
    rw [hcallers]
    dsimp only at h
    split at h
    · cases h
    · split at h
      · cases h
        exact ⟨caller.frame, rfl, rfl, rfl⟩
      · rename_i v _
        split at h
        · cases h
        · cases h
          exact ⟨{ caller.frame with stack := v :: caller.frame.stack }, rfl, rfl, rfl⟩

/-- A move after which the machine goes on changes the activations in one of four ways. -/
theorem changes_of_move (h : f.move methods = .running f') :
    Changes methods f.activations f'.activations := by
  unfold move at h
  split at h
  · cases h
  · rename_i i hi
    have inside := Block.lt_of_getElem? hi
    split at h
    · cases h
    · rename_i m hs
      cases h
      exact .next inside (Action.pc_of_step hs)
    · obtain ⟨left, target, rfl⟩ := branch_running h
      exact .branch inside left
    · rename_i method args m hs
      obtain ⟨left, body, frame, found, hf'⟩ := call_running h
      rw [hf']
      refine .call inside (Action.pc_of_step hs) ?_ found
      rw [List.length_map]
      exact left
    · obtain ⟨caller, below, frame, hf, hpc, hf'⟩ := giveBack_running h
      rw [hf']
      have hbelow : f.activations = f.top :: caller :: below :=
        congrArg (f.top :: ·) (List.tail_eq_of_cons_eq hf)
      rw [hbelow]
      exact .giveBack inside hpc

/-! ### Bounds -/

/-- The bounds within which the flat machine makes its moves, when no block is longer than
a certain length. -/
structure Within (longest : Nat) (activations : List Activation) : Prop where
  /-- All but the first one are nested calls. -/
  calls : activations.length ≤ callLimit + 1
  /-- No activation has taken more branches than it may. -/
  branches : ∀ a ∈ activations, a.branches ≤ branchLimit
  /-- No activation executes a longer block. -/
  blocks : ∀ a ∈ activations, a.block.length ≤ longest

variable {longest : Nat} {before after : List Activation}

/-- A move keeps the bounds. -/
theorem Within.preserved (bodies : ∀ name body, methods.find? name = some body →
      body.length ≤ longest)
    (hwithin : Within longest before) (h : Changes methods before after) :
    Within longest after := by
  obtain ⟨calls, branches, blocks⟩ := hwithin
  cases h with
  | next inside pc =>
    rw [List.forall_mem_cons] at branches blocks
    exact ⟨calls, List.forall_mem_cons.2 branches, List.forall_mem_cons.2 blocks⟩
  | branch inside left =>
    rw [List.forall_mem_cons] at branches blocks
    exact ⟨calls, List.forall_mem_cons.2 ⟨left, branches.2⟩, List.forall_mem_cons.2 blocks⟩
  | call inside pc left found =>
    rw [List.forall_mem_cons] at branches blocks
    refine ⟨Nat.succ_le_succ left, ?_, ?_⟩
    · exact List.forall_mem_cons.2 ⟨Nat.zero_le _, List.forall_mem_cons.2 branches⟩
    · exact List.forall_mem_cons.2 ⟨bodies _ _ found, List.forall_mem_cons.2 blocks⟩
  | giveBack inside pc =>
    rw [List.forall_mem_cons] at branches blocks
    rw [List.forall_mem_cons] at branches blocks
    exact ⟨Nat.le_of_succ_le calls, List.forall_mem_cons.2 branches.2,
      List.forall_mem_cons.2 blocks.2⟩

/-! ### The work that is left -/

/-- How many instructions an activation can still execute at most, those of its callees
aside: the rest of its block, and for each branch that it may still take a whole block. -/
def remaining (longest : Nat) (a : Activation) : Nat :=
  (branchLimit - a.branches) * longest + (a.block.length - a.frame.pc)

/-- How many instructions can be executed for one instruction, itself and those of its
callees, when a number of calls may still nest. -/
def weight (longest : Nat) : Nat → Nat
  | 0 => 1
  | calls + 1 => 1 + (branchLimit + 1) * longest * weight longest calls

/-- How many instructions activations can still execute at most, those of their callees
included. -/
def work (longest : Nat) : List Activation → Nat
  | [] => 0
  | a :: below =>
    remaining longest a * weight longest (callLimit - below.length) + work longest below

theorem weight_pos (longest calls : Nat) : 0 < weight longest calls := by
  cases calls with
  | zero => exact Nat.one_pos
  | succ calls => exact Nat.lt_of_lt_of_le Nat.one_pos (Nat.le_add_right ..)

/-- An activation that has less left has less work left. -/
theorem work_lt_of_remaining_lt {a a' : Activation} (below : List Activation)
    (h : remaining longest a' < remaining longest a) :
    work longest (a' :: below) < work longest (a :: below) :=
  Nat.add_lt_add_right (Nat.mul_lt_mul_of_pos_right h (weight_pos ..)) _

/-- Each instruction leaves one less to execute. -/
theorem remaining_next {a : Activation} {frame : Frame} (inside : a.frame.pc < a.block.length)
    (pc : frame.pc = a.frame.pc + 1) :
    remaining longest { a with frame := frame } + 1 = remaining longest a := by
  unfold remaining
  dsimp only
  omega

/-- What a branch leads to is within the block that it takes away. -/
theorem remaining_branch {a : Activation} {frame : Frame} (inside : a.frame.pc < a.block.length)
    (left : a.branches < branchLimit) (hlongest : a.block.length ≤ longest) :
    remaining longest ⟨a.block, frame, a.branches + 1⟩ < remaining longest a := by
  unfold remaining
  dsimp only
  obtain ⟨n, hn⟩ : ∃ n, branchLimit - a.branches = n + 1 :=
    ⟨branchLimit - a.branches - 1, by omega⟩
  have hn' : branchLimit - (a.branches + 1) = n := by omega
  rw [hn, hn', Nat.succ_mul]
  omega

/-- A callee has no more left than every branch and its block allow. -/
theorem remaining_callee {body : Block} (callee : Frame) (h : body.length ≤ longest) :
    remaining longest ⟨body, callee, 0⟩ ≤ (branchLimit + 1) * longest := by
  unfold remaining
  dsimp only
  rw [Nat.succ_mul, Nat.sub_zero]
  omega

/-- Every move leaves less work. -/
theorem work_decreases (bodies : ∀ name body, methods.find? name = some body →
      body.length ≤ longest)
    (hwithin : Within longest before) (h : Changes methods before after) :
    work longest after < work longest before := by
  have hblocks := hwithin.blocks
  cases h with
  | @next a below frame inside pc =>
    refine work_lt_of_remaining_lt below ?_
    rw [← remaining_next inside pc]
    exact Nat.lt_succ_self _
  | @branch a below frame inside left =>
    exact work_lt_of_remaining_lt below
      (remaining_branch inside left (hblocks a List.mem_cons_self))
  | @call a below frame callee name body inside pc left found =>
    obtain ⟨calls, hcalls⟩ : ∃ calls, callLimit - below.length = calls + 1 :=
      ⟨callLimit - below.length - 1, by omega⟩
    have hcalls' : callLimit - (below.length + 1) = calls := by omega
    have hcallee := Nat.mul_le_mul_right (weight longest calls)
      (remaining_callee callee (bodies _ _ found))
    simp only [work, List.length_cons]
    rw [hcalls, hcalls', ← remaining_next inside pc, Nat.succ_mul, weight]
    omega
  | @giveBack a caller below frame inside pc =>
    have hcaller : remaining longest { caller with frame := frame } = remaining longest caller := by
      unfold remaining
      rw [pc]
    have ha : 0 < remaining longest a := by
      unfold remaining
      omega
    simp only [work, hcaller]
    exact Nat.lt_add_of_pos_left (Nat.mul_pos ha (weight_pos ..))

/-! ### Halting -/

/-- The flat machine comes to a halt after a number of moves, the last one included. -/
inductive HaltsIn (methods : Methods) :
    Nat → FlatMachine → EStateM.Result InvocationError Machine (Option Value) → Prop where
  | returned {f f' : FlatMachine} {result : Option Value}
      (moved : f.move methods = .returned result f') :
      HaltsIn methods 1 f (.ok result f'.outermost)
  | failed {f f' : FlatMachine} {e : InvocationError}
      (moved : f.move methods = .failed e f') : HaltsIn methods 1 f (.error e f'.outermost)
  | running {f f' : FlatMachine} {n : Nat}
      {r : EStateM.Result InvocationError Machine (Option Value)}
      (moved : f.move methods = .running f') (halts : HaltsIn methods n f' r) :
      HaltsIn methods (n + 1) f r

theorem HaltsIn.halts {n : Nat} {r : EStateM.Result InvocationError Machine (Option Value)}
    (h : HaltsIn methods n f r) : f.Halts methods r := by
  induction h with
  | returned moved => exact .returned moved
  | failed moved => exact .failed moved
  | running moved _ ih => exact .running moved ih

/-- The flat machine halts before it has done all the work that was left. -/
theorem haltsIn_of_within (bodies : ∀ name body, methods.find? name = some body →
      body.length ≤ longest)
    (hwithin : Within longest f.activations) :
    ∃ r, ∃ n ≤ work longest f.activations + 1, HaltsIn methods n f r := by
  generalize hwork : work longest f.activations = left
  induction left using Nat.strongRecOn generalizing f with
  | ind left ih =>
    subst hwork
    cases hmove : f.move methods with
    | returned result f' => exact ⟨_, 1, by omega, .returned hmove⟩
    | failed e f' => exact ⟨_, 1, by omega, .failed hmove⟩
    | running f' =>
      have hchanges := changes_of_move hmove
      have hless := work_decreases bodies hwithin hchanges
      obtain ⟨r, n, hn, hhalts⟩ := ih _ hless (hwithin.preserved bodies hchanges) rfl
      exact ⟨r, n + 1, by omega, .running hmove hhalts⟩

/-- One move of the flat machine after which it goes on. -/
def Moves (methods : Methods) (f f' : FlatMachine) : Prop := f.move methods = .running f'

variable (methods)

/-- At the start there is a single activation, which is within all limits. -/
theorem within_start (block : Block) (m : Machine) :
    Within (methods.longest block) (start block m).activations where
  calls := Nat.succ_le_succ (Nat.zero_le _)
  branches := List.forall_mem_singleton.2 (Nat.zero_le _)
  blocks := List.forall_mem_singleton.2 (methods.le_longest block)

variable {methods} in
/-- The flat machine keeps within its bounds as long as it goes on. -/
theorem within_of_moves {block : Block} {m : Machine}
    (h : Relation.ReflTransGen (Moves methods) (start block m) f) :
    Within (methods.longest block) f.activations := by
  induction h with
  | refl => exact within_start methods block m
  | tail _ moved ih =>
    exact ih.preserved (methods.body_le_longest block) (changes_of_move moved)

variable {methods} in
/-- An activation that has taken every branch that it may take is abandoned at the next one. -/
theorem move_of_last_branch {i : Instruction Value} {m : Machine} {pc : Nat} {offset : Int16}
    (here : f.top.block[f.top.frame.pc]? = some i)
    (stepped : Action.step i f.machine = .ok (.branch pc offset) m)
    (last : branchLimit ≤ f.top.branches) :
    f.move methods = .failed .tooManyBranches (f.withMachine m) := by
  rw [move, here]
  dsimp only
  rw [stepped]
  exact branch_of_limit (f := f.withMachine m) last pc offset

/-- The flat machine that starts with a block halts as the invocation ends. -/
theorem halts_invoke (block : Block) (m : Machine) :
    (start block m).Halts methods (Invocation.invoke methods block m) := by
  refine halts_of_activate (simulates_call callLimit 0 (Nat.zero_add _)) branchLimit rfl
    (Nat.zero_add _) rfl ?_
  rw [Invocation.invoke_apply]
  dsimp only [start, machine]
  cases Invocation.activate _ block branchLimit (block.drop m.frame.pc) m <;> rfl

/-- Every invocation ends. It is a run of the flat machine with no more moves than the work
that is left at its beginning, which each of its moves makes less. All the way calls are
nested no deeper than the limit and no activation has taken more branches than the limit:
one that takes another branch is abandoned. Between control events, a run of any block in
any frame executes no more instructions than the block has left. -/
theorem invoke_terminates (block : Block) (m : Machine) :
    (∃ n ≤ work (methods.longest block) (start block m).activations + 1,
      HaltsIn methods n (start block m) (Invocation.invoke methods block m)) ∧
    (∀ f, Relation.ReflTransGen (Moves methods) (start block m) f →
      Within (methods.longest block) f.activations ∧
      (∀ f', f.move methods = .running f' →
        work (methods.longest block) f'.activations <
          work (methods.longest block) f.activations) ∧
      ∀ i m' pc offset, f.top.block[f.top.frame.pc]? = some i →
        Action.step i f.machine = .ok (.branch pc offset) m' → branchLimit ≤ f.top.branches →
          f.move methods = .failed .tooManyBranches (f.withMachine m')) ∧
    ∀ (b : Block) (m' : Machine),
      ∃ n ≤ b.length - m'.frame.pc, RunsIn b n m' (Action.run b m') := by
  have bodies := methods.body_le_longest block
  refine ⟨?_, fun f hf => ⟨within_of_moves hf, ?_, ?_⟩, run_runsIn⟩
  · obtain ⟨r, n, hn, hr⟩ := haltsIn_of_within bodies (within_start methods block m)
    obtain rfl := hr.halts.unique (halts_invoke methods block m)
    exact ⟨n, hn, hr⟩
  · intro f' hmove
    exact work_decreases bodies (within_of_moves hf) (changes_of_move hmove)
  · intro i m' pc offset here stepped last
    exact move_of_last_branch here stepped last

end FlatMachine

end StackMachine
