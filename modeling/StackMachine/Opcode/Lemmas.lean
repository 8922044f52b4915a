import StackMachine.Opcode

/-!
# Looking up opcodes

The enumeration of opcodes is complete, its byte codes ascend, and a mnemonic
belongs to exactly one opcode.
-/

namespace StackMachine

theorem SmallConstant.mem_all (c : SmallConstant) : c ∈ SmallConstant.all := by
  cases c <;> simp [SmallConstant.all]

theorem Arithmetic.mem_all (o : Arithmetic) : o ∈ Arithmetic.all := by cases o <;> decide

theorem Shift.mem_all (o : Shift) : o ∈ Shift.all := by cases o <;> decide

theorem Bitwise.mem_all (o : Bitwise) : o ∈ Bitwise.all := by cases o <;> decide

theorem Conversion.mem_all (o : Conversion) : o ∈ Conversion.all := by cases o <;> decide

theorem ThreeWay.mem_all (c : ThreeWay) : c ∈ ThreeWay.all := by
  rcases c with _ | u | u <;> try cases u
  all_goals decide

theorem Condition.mem_all (o : Condition) : o ∈ Condition.all := by cases o <;> decide

namespace Opcode

theorem mem_arrayKinds (k : ElementKind) : k ∈ arrayKinds := by cases k <;> decide

/-- The list of opcodes leaves none out. -/
theorem mem_all (o : Opcode) : o ∈ all := by
  unfold all
  cases o with
  | load k s => cases s <;> simp [Kind.mem_all, impliedSlots]
  | store k s => cases s <;> simp [Kind.mem_all, impliedSlots]
  | ifSame b => cases b <;> simp
  | ifNull b => cases b <;> simp
  | _ => simp [SmallConstant.mem_all, mem_arrayKinds, Arithmetic.mem_all, Numeric.mem_all,
      Shift.mem_all, Integral.mem_all, Bitwise.mem_all, Conversion.mem_all, ThreeWay.mem_all,
      Condition.mem_all, Kind.mem_all]

/-- The byte codes ascend along the list of opcodes, so no two opcodes share one. -/
theorem pairwise_code_lt : (all.map code).Pairwise (· < ·) := by decide +kernel

/-- No two opcodes share a mnemonic. -/
private theorem ofMnemonic?_of_mem : ∀ o ∈ all, ofMnemonic? o.mnemonic = some o := by
  decide +kernel

/-- An opcode is found by its mnemonic, so no two opcodes share one. -/
theorem ofMnemonic?_mnemonic (o : Opcode) : ofMnemonic? o.mnemonic = some o :=
  ofMnemonic?_of_mem o (mem_all o)

/-- Only mnemonics are found. -/
theorem ofMnemonic?_eq_some_iff {s : String} {o : Opcode} :
    ofMnemonic? s = some o ↔ s = o.mnemonic := by
  constructor
  · intro h
    have := List.find?_some h
    simpa using (of_decide_eq_true this).symm
  · rintro rfl
    exact ofMnemonic?_mnemonic o

end Opcode

end StackMachine
