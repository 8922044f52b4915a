import StackMachine.Proofs.ExactValues
import StackMachine.Proofs.Termination

/-!
# Comparing and branching

A relation between two numbers is decided by two instructions: a comparison, which leaves an
int, and a branch, which is taken if that int does not stand for the relation. Between
floating-point numbers the comparison has to be the one whose report on NaNs makes the branch
be taken, so that no relation but `≠` holds of a NaN.
-/

namespace StackMachine

/-! ### Conditions as relations -/

namespace Condition

/-- The relation that a condition names in an order. -/
def Relates {α : Type} [LinearOrder α] : Condition → α → α → Prop
  | eq, a, b => a = b
  | ne, a, b => a ≠ b
  | lt, a, b => a < b
  | ge, a, b => b ≤ a
  | gt, a, b => b < a
  | le, a, b => a ≤ b

instance {α : Type} [LinearOrder α] : (c : Condition) → (a b : α) → Decidable (c.Relates a b)
  | eq, a, b => inferInstanceAs (Decidable (a = b))
  | ne, a, b => inferInstanceAs (Decidable (a ≠ b))
  | lt, a, b => inferInstanceAs (Decidable (a < b))
  | ge, a, b => inferInstanceAs (Decidable (b ≤ a))
  | gt, a, b => inferInstanceAs (Decidable (b < a))
  | le, a, b => inferInstanceAs (Decidable (a ≤ b))

/-- A condition holds of how two things compare if they are in the relation that it names. -/
theorem holds_compare {α : Type} [LinearOrder α] (c : Condition) (a b : α) :
    c.holds (compare a b) = true ↔ c.Relates a b := by
  have hlt : compare a b = .lt ↔ a < b := compare_lt_iff_lt
  have hgt : compare a b = .gt ↔ b < a := compare_gt_iff_gt
  have heq : compare a b = .eq ↔ a = b := compare_eq_iff_eq
  cases c <;> simp [holds, Relates, hlt, hgt, heq]

/-- The int that stands for an ordering compares to zero as the ordering says. -/
theorem tests_orderingValue (c : Condition) (o : Ordering) :
    c.tests (orderingValue o) = c.holds o := by
  cases c <;> cases o <;> rfl

end Condition

namespace Binary

variable {f : Format}

/-- The relation that a condition names between two numbers. Between numbers that have values
it is the relation of the values, and if one of them is a NaN, they are different and no more. -/
def Relates (c : Condition) (x y : Binary f) : Prop :=
  if x.isNaN || y.isNaN then c = .ne else c.Relates x.extended y.extended

instance (c : Condition) (x y : Binary f) : Decidable (x.Relates c y) :=
  inferInstanceAs
    (Decidable (if x.isNaN || y.isNaN then c = .ne else c.Relates x.extended y.extended))

/-- A NaN is different from every number, itself included, and in no other relation. -/
theorem relates_of_isNaN (c : Condition) {x y : Binary f} (h : x.isNaN ∨ y.isNaN) :
    x.Relates c y ↔ c = .ne := by
  have hnan : (x.isNaN || y.isNaN) = true := by simpa using h
  rw [Relates, if_pos hnan]

/-- Zeros are equal, whatever their signs. -/
theorem zero_relates_zero (hf : 2 ≤ f.exponentBits) (s t : Bool) :
    (zero s : Binary f).Relates .eq (zero t) := by
  have hnan (negative : Bool) : (zero negative : Binary f).isNaN = false := by
    simp [isNaN, zero, ofParts]
  unfold Relates
  rw [hnan s, hnan t, if_neg (by decide), extended_zero hf, extended_zero hf]
  rfl

end Binary

/-- A relation, the report on NaNs of a comparison, and the condition of a branch behind the
comparison that is taken if the relation does not hold. -/
inductive Implements : Condition → Unordered → Condition → Prop where
  | lt : Implements .lt .greater .ge
  | le : Implements .le .greater .gt
  | gt : Implements .gt .less .le
  | ge : Implements .ge .less .lt
  | eq (u : Unordered) : Implements .eq u .ne
  | ne (u : Unordered) : Implements .ne u .eq

namespace ThreeWay

variable {f : Format} {x y : Binary f}

/-- With a NaN, the instruction decides the comparison. -/
theorem onBinary_of_isNaN (u : Unordered) (h : (x.isNaN || y.isNaN) = true) :
    onBinary u x y = u.ordering := by
  rw [onBinary, Binary.compare?, if_pos h, Option.getD_none]

/-- Without one, numbers compare as their extended values do. -/
theorem onBinary_of_not_isNaN (hf : 2 ≤ f.exponentBits) (u : Unordered)
    (h : ¬ (x.isNaN || y.isNaN) = true) : onBinary u x y = compare x.extended y.extended := by
  simp only [Bool.or_eq_true, not_or] at h
  rw [onBinary, Binary.compare?_eq hf h.1 h.2, Option.getD_some]

/-- The branch is taken where the relation does not hold. -/
theorem holds_onBinary_iff (hf : 2 ≤ f.exponentBits) {r c : Condition} {u : Unordered}
    (h : Implements r u c) (x y : Binary f) : c.holds (onBinary u x y) ↔ ¬ x.Relates r y := by
  unfold Binary.Relates
  by_cases hnan : (x.isNaN || y.isNaN) = true
  · rw [onBinary_of_isNaN u hnan, if_pos hnan]
    cases h with
    | eq u | ne u => cases u <;> decide
    | _ => decide
  · rw [onBinary_of_not_isNaN hf u hnan, if_neg hnan, Condition.holds_compare]
    cases h <;> simp [Condition.Relates]

/-- Comparisons that report differently on NaNs agree on the rest. -/
theorem onBinary_less_eq_iff (x y : Binary f) :
    onBinary .less x y = onBinary .greater x y ↔ ¬ x.isNaN ∧ ¬ y.isNaN := by
  unfold onBinary Binary.compare?
  cases x.isNaN <;> cases y.isNaN <;> simp [Unordered.ordering]

/-- Exchanging the numbers turns a comparison into the opposite of the other one. -/
theorem onBinary_greater_eq (x y : Binary f) :
    onBinary .greater x y = (onBinary .less y x).swap := by
  unfold onBinary Binary.compare?
  rw [Bool.or_comm]
  split
  · rfl
  · have hswap : compare x.rank y.rank = (compare y.rank x.rank).swap :=
      Std.OrientedCmp.eq_swap
    rw [Option.getD_some, Option.getD_some, hswap]

end ThreeWay

@[simp] theorem orderingValue_swap (o : Ordering) : orderingValue o.swap = -orderingValue o := by
  cases o <;> rfl

/-- The three answers to a comparison are different ints. -/
theorem orderingValue_inj {o o' : Ordering} : orderingValue o = orderingValue o' ↔ o = o' := by
  cases o <;> cases o' <;> decide

/-! ### Instructions -/

/-- An instruction replaces values on the stack, the topmost first, with a value, for which
there has to be room. -/
def Instruction.Computes (i : Instruction Value) (args : List Value) (v : Value) : Prop :=
  ∀ (m : Machine) (below : List Value), m.frame.stack = args ++ below →
    below.length < m.frame.maxStack → Action.step i m = .ok .next (m.past 1 (v :: below))

/-- An instruction takes values off the stack, the topmost first, and branches if a condition
holds. -/
def Instruction.Branches (i : Instruction Value) (args : List Value) (offset : Int16)
    (taken : Bool) : Prop :=
  ∀ (m : Machine) (below : List Value), m.frame.stack = args ++ below →
    Action.step i m =
      .ok (if taken then .branch m.frame.pc offset else .next) (m.past 1 below)

/-- Two instructions take values off the stack, the topmost first, and lead on to what is
behind them if a condition holds. Otherwise the second one branches. The value that passes
from one to the other has to have room. -/
def Decides (i j : Instruction Value) (args : List Value) (offset : Int16) (through : Bool) :
    Prop :=
  ∀ (m : Machine) (below : List Value) (rest : Block), m.frame.stack = args ++ below →
    below.length < m.frame.maxStack →
    Action.runAll (i :: j :: rest) m =
      if through then Action.runAll rest (m.past 2 below)
      else .ok (.branch (m.frame.pc + 1) offset) (m.past 2 below)

/-- An instruction computes a value if pushing that value is all that follows from the
arguments. -/
theorem computes_of_effect {i : Instruction Value} {p : Plan} (hp : i.plan? = some p)
    (args : Arguments p.demand) {v : Value}
    (heffect : ∀ s : Store, p.effect args s = .ok (.push v s)) : i.Computes args.values v :=
  fun m _ hstack hroom => Action.step_of_effect hp hstack (heffect m.store) (.inr hroom)

/-- An operation on two numbers computes what it gives if it does not fail. -/
theorem computes_of_binary {i : Instruction Value} {k t : Kind}
    {f : k.Carrier → k.Carrier → Except Fault t.Carrier}
    (hp : i.plan? = some (.binary k t f)) {a b : k.Carrier} {x : t.Carrier}
    (hx : f a b = .ok x) : i.Computes [.of k b, .of k a] (.of t x) := by
  let args : Arguments (Plan.binary k t f).demand := (b, a, ())
  refine computes_of_effect hp args fun s => ?_
  change ((f a b).mapError Cause.fault >>= _) = _
  rw [hx]
  rfl

/-- A comparison computes the int that stands for its answer. -/
theorem computes_compare (t : ThreeWay) (operand : Operand Value) (a b : t.operand.Carrier) :
    Instruction.Computes ⟨.compare t, operand⟩ [.of t.operand.kind b, .of t.operand.kind a]
      (.int (orderingValue (t.apply a b))) :=
  computes_of_binary (t := .int) rfl rfl

/-- A conditional branch is taken if its test says so. -/
theorem branches_of_branching {i : Instruction Value} {d : Demand} {test : Arguments d → Bool}
    {offset : Int16} (hp : i.plan? = some (.branching d test offset)) (args : Arguments d) :
    i.Branches args.values offset (test args) := by
  intro m below hstack
  have heffect : (Plan.branching d test offset).effect args m.store =
      .ok (.leave (if test args then .branch offset else .next) m.store) := rfl
  refine (Action.step_of_effect hp hstack heffect (.inl rfl)).trans
    (congrArg₂ EStateM.Result.ok ?_ rfl)
  dsimp only [Effect.leave]
  cases test args <;> rfl

/-- A branch on an int tests its condition against zero. -/
theorem branches_ifZero (c : Condition) (offset : Int16) (a : Int32) :
    Instruction.Branches ⟨.ifZero c, .branch offset⟩ [.int a] offset (c.tests a) := by
  have hp : Instruction.plan? ⟨.ifZero c, .branch offset⟩ =
      some (.branching [some .int] (fun args => c.tests args.1) offset) := rfl
  exact branches_of_branching hp (a, ())

theorem branches_ifInt (c : Condition) (offset : Int16) (a b : Int32) :
    Instruction.Branches ⟨.ifInt c, .branch offset⟩ [.int b, .int a] offset (c.compares a b) := by
  have hp : Instruction.plan? ⟨.ifInt c, .branch offset⟩ =
      some (.branching [some .int, some .int] (fun args => c.compares args.2.1 args.1) offset) :=
    rfl
  exact branches_of_branching hp (b, a, ())

/-- A comparison and a branch on its answer lead past the branch if the condition of the branch
does not hold of the answer. -/
theorem Instruction.Computes.decides {i : Instruction Value} {args : List Value} {o : Ordering}
    {c : Condition} {through : Bool} (hi : i.Computes args (.int (orderingValue o)))
    (h : c.holds o ↔ through = false) (offset : Int16) :
    Decides i ⟨.ifZero c, .branch offset⟩ args offset through := by
  intro m below rest hstack hroom
  have hbranches := branches_ifZero c offset (orderingValue o)
    (m.past 1 (.int (orderingValue o) :: below)) below rfl
  rw [Condition.tests_orderingValue] at hbranches
  rw [Action.runAll_cons_apply, hi m below hstack hroom]
  dsimp only
  rw [Action.runAll_cons_apply, hbranches]
  cases through with
  | false =>
    rw [if_pos (h.2 rfl)]
    rfl
  | true =>
    have hnot : ¬ c.holds o := fun ho => Bool.noConfusion (h.1 ho)
    rw [if_neg hnot]
    rfl

/-- The comparisons of a floating-point format, one for each report on NaNs, implement the
relations between its numbers. -/
structure ImplementRelations {f : Format} (opcode : Unordered → Opcode)
    (number : Binary f → Value) : Prop where
  /-- With the right branch behind it, a comparison leads past the branch if the relation holds
  and to its target if not. -/
  decides : ∀ {r c : Condition} {u : Unordered}, Implements r u c →
    ∀ (operand : Operand Value) (offset : Int16) (a b : Binary f),
      Decides ⟨opcode u, operand⟩ ⟨.ifZero c, .branch offset⟩ [number b, number a] offset
        (a.Relates r b)
  /-- A NaN is different from every number, and in no other relation. -/
  nan : ∀ (r : Condition) (a b : Binary f), a.isNaN ∨ b.isNaN → (a.Relates r b ↔ r = .ne)
  /-- The two zeros are equal. -/
  zeros : ∀ s t : Bool, (Binary.zero s : Binary f).Relates .eq (Binary.zero t)
  /-- A comparison leaves the int that stands for its answer. -/
  computes : ∀ (u : Unordered) (operand : Operand Value) (a b : Binary f),
    Instruction.Computes ⟨opcode u, operand⟩ [number b, number a]
      (.int (orderingValue (ThreeWay.onBinary u a b)))
  /-- The reports on NaNs are all that the two comparisons differ in. -/
  agree : ∀ a b : Binary f, orderingValue (ThreeWay.onBinary .less a b) =
    orderingValue (ThreeWay.onBinary .greater a b) ↔ ¬ a.isNaN ∧ ¬ b.isNaN
  /-- Each comparison is the opposite of the other one with the numbers exchanged. -/
  opposite : ∀ a b : Binary f, orderingValue (ThreeWay.onBinary .greater a b) =
    -orderingValue (ThreeWay.onBinary .less b a)

/-- A comparison and a branch on its answer decide a relation between numbers. -/
theorem implementRelations {f : Format} (hf : 2 ≤ f.exponentBits) {opcode : Unordered → Opcode}
    {number : Binary f → Value}
    (hcomputes : ∀ (u : Unordered) (operand : Operand Value) (a b : Binary f),
      Instruction.Computes ⟨opcode u, operand⟩ [number b, number a]
        (.int (orderingValue (ThreeWay.onBinary u a b)))) :
    ImplementRelations opcode number where
  decides {r c u} h operand offset a b := by
    refine (hcomputes u operand a b).decides ?_ offset
    rw [ThreeWay.holds_onBinary_iff hf h, decide_eq_false_iff_not]
  nan r a b h := Binary.relates_of_isNaN r h
  zeros := Binary.zero_relates_zero hf
  computes := hcomputes
  agree a b := orderingValue_inj.trans (ThreeWay.onBinary_less_eq_iff a b)
  opposite a b := by rw [ThreeWay.onBinary_greater_eq, orderingValue_swap]

/-- Comparing and branching decides the relations between numbers, of floats and doubles with
NaNs among them, of longs, and of ints in one instruction. -/
theorem branches_decide_relations :
    ImplementRelations (fun u => .compare (.float u)) .float ∧
      ImplementRelations (fun u => .compare (.double u)) .double ∧
      (∀ (c : Condition) (operand : Operand Value) (offset : Int16) (a b : Int64),
        Decides ⟨.compare .long, operand⟩ ⟨.ifZero c, .branch offset⟩ [.long b, .long a] offset
          (¬ c.Relates a.toInt b.toInt)) ∧
      ∀ (c : Condition) (offset : Int16) (a b : Int32),
        Instruction.Branches ⟨.ifInt c, .branch offset⟩ [.int b, .int a] offset
          (c.Relates a.toInt b.toInt) := by
  refine ⟨implementRelations (by decide) fun u => computes_compare (.float u),
    implementRelations (by decide) fun u => computes_compare (.double u), ?_, ?_⟩
  · intro c operand offset a b
    refine (computes_compare .long operand a b).decides ?_ offset
    rw [decide_eq_false_iff_not, not_not]
    exact Condition.holds_compare c a.toInt b.toInt
  · intro c offset a b
    have hcompares : c.compares a b = decide (c.Relates a.toInt b.toInt) := by
      rw [Bool.eq_iff_iff, Condition.compares, Condition.holds_compare, decide_eq_true_iff]
    rw [← hcompares]
    exact branches_ifInt c offset a b

end StackMachine
