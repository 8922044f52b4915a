import Mathlib.Data.List.Induction
import StackMachine.Proofs.Elements

/-!
# Arrays whose elements are replaced

The elements of an array may be replaced all at once by elements of another kind. What an array
is declared to hold stays what it was, but it is the last elements it was given that decide which
values are written to it, what becomes of them, and which values are read. The declared kind only
names the array when a value is refused.
-/

namespace StackMachine

namespace ElementKind

/-- The kinds of elements differ in the values that they store or in what becomes of this int, of
which no two kinds of ints keep the same. -/
theorem eq_of_stored {k k' : ElementKind} (hkind : k.valueKind = k'.valueKind)
    (hstored : k.stored (.int (-70000)) = k'.stored (.int (-70000))) : k = k' := by
  have hall : ∀ k ∈ all, ∀ k' ∈ all, k.valueKind = k'.valueKind →
      k.stored (.int (-70000)) = k'.stored (.int (-70000)) → k = k' := by decide
  exact hall k (mem_all k) k' (mem_all k') hkind hstored

/-- Only the kinds of ints share the values that they store. -/
theorem eq_of_valueKind_ne_int {k k' : ElementKind} (hkind : k.valueKind = k'.valueKind)
    (hint : k.valueKind ≠ .int) : k = k' := by
  have hall : ∀ k ∈ all, ∀ k' ∈ all, k.valueKind = k'.valueKind → k.valueKind ≠ .int →
      k = k' := by decide
  exact hall k (mem_all k) k' (mem_all k') hkind hint

end ElementKind

namespace ArrayObject

/-- What may be done to an array. -/
inductive Edit where
  /-- A value is written to it at an index. -/
  | store (index : Int32) (v : Value)
  /-- It is given other elements. -/
  | replace (s : Storage)

/-- The elements that an edit gives to an array. -/
def Edit.storage? : Edit → Option Storage
  | store .. => none
  | replace s => some s

/-- The array after an edit. A write that fails leaves it as it was. -/
def edit (a : ArrayObject) : Edit → ArrayObject
  | .store index v =>
    match a.store index v with
    | .ok a' => a'
    | .error _ => a
  | .replace s => a.replace s

/-- The array after edits that are made one after the other. -/
def edited (a : ArrayObject) (edits : List Edit) : ArrayObject := edits.foldl edit a

/-- The elements that an array was given last, apart from what was written to them since. -/
def lastStorage (a : ArrayObject) (edits : List Edit) : Storage :=
  edits.foldl (fun s e => e.storage?.getD s) a.storage

/-- Every access to an array is as it should be for elements of a kind. -/
structure AccessedAs (a : ArrayObject) (k : ElementKind) : Prop where
  /-- Reading an element fails for the index only. -/
  load_fails : ∀ index f, a.load index = .error f ↔
    ¬ a.InBounds index ∧ f = .arrayIndex index a.length
  load_kind : ∀ index v, a.load index = .ok v → v.kind = k.valueKind
  /-- Writing an element fails for the index or, if that is right, for the kind of the value. -/
  store_fails : ∀ index v f, a.store index v = .error f ↔
    (¬ a.InBounds index ∧ f = .arrayIndex index a.length) ∨
      (a.InBounds index ∧ v.kind ≠ k.valueKind ∧ f = .arrayStore a.declared v.kind)
  store_succeeds : ∀ index v, (∃ a', a.store index v = .ok a') ↔
    a.InBounds index ∧ v.kind = k.valueKind
  /-- What is written is read back converted to the kind. -/
  narrows : ∀ index v a', a.store index v = .ok a' → a'.load index = .ok (k.stored v)
  others : ∀ index v a', a.store index v = .ok a' → ∀ j ≠ index, a'.load j = a.load j

variable {a a' : ArrayObject} {k k' : ElementKind} {index : Int32} {v : Value} {f : Fault}

/-! ### One access -/

/-- From inside a value of the kind of the storage is loaded. -/
theorem load_of_inBounds (h : a.InBounds index) :
    ∃ v, a.load index = .ok v ∧ v.kind = a.storage.kind.valueKind := by
  obtain ⟨i, hi⟩ := position_of_inBounds h
  refine ⟨a.get i, ?_, ElementKind.kind_widen _ _⟩
  rw [load, hi]
  rfl

/-- The storage decides about every access, whatever the array is declared to hold. -/
theorem accessedAs_storage (a : ArrayObject) : a.AccessedAs a.storage.kind where
  load_fails index f := by
    by_cases hin : a.InBounds index
    · obtain ⟨v, hv, -⟩ := load_of_inBounds hin
      simp [hv, hin]
    · simp [load_of_not_inBounds hin, hin, eq_comm]
  load_kind index v h := by
    obtain ⟨i, -, rfl⟩ := load_ok h
    exact ElementKind.kind_widen _ _
  store_fails index v f := by
    rcases a.store_cases index v with ⟨hin, hs⟩ | ⟨hin, hk, hs⟩ | ⟨hin, hk, a', hs⟩
    · simp [hs, hin, eq_comm]
    · simp [hs, hin, hk, eq_comm]
    · simp [hs, hin, hk]
  store_succeeds index v := by
    rcases a.store_cases index v with ⟨hin, hs⟩ | ⟨hin, hk, hs⟩ | ⟨hin, hk, a', hs⟩
    · simp [hs, hin]
    · simp [hs, hin, hk]
    · simp [hs, hin, hk]
  narrows _ _ _ h := load_of_store h
  others _ _ _ h _ hj := load_of_store_ne h hj

/-- Where there are elements, accesses tell their kind. -/
theorem AccessedAs.kind_eq (h : a.AccessedAs k) (h' : a.AccessedAs k') (hne : a.length ≠ 0) :
    k = k' := by
  have hin : a.InBounds 0 := by
    refine ⟨Int.le_refl 0, ?_⟩
    change (0 : Int) < a.length
    omega
  obtain ⟨v, hv, -⟩ := load_of_inBounds hin
  have hkind : k.valueKind = k'.valueKind := by
    rw [← h.load_kind 0 v hv, ← h'.load_kind 0 v hv]
  by_cases hint : k.valueKind = .int
  · obtain ⟨a', ha'⟩ := (h.store_succeeds 0 (.int (-70000))).2 ⟨hin, hint.symm⟩
    have hread := (h.narrows _ _ _ ha').symm.trans (h'.narrows _ _ _ ha')
    exact ElementKind.eq_of_stored hkind (Except.ok.inj hread)
  · exact ElementKind.eq_of_valueKind_ne_int hkind hint

/-- Without elements there is nothing to access. -/
theorem accessedAs_of_length_eq_zero (h : a.length = 0) (k : ElementKind) : a.AccessedAs k := by
  have hout (index : Int32) : ¬ a.InBounds index := fun hin => by
    have hpos := hin.1
    have hlt := hin.2
    omega
  have hs := a.accessedAs_storage
  refine ⟨hs.load_fails, fun index v hv => ?_, fun index v f => ?_, fun index v => ?_,
    fun index v a' ha' => ?_, hs.others⟩
  · obtain ⟨i, -, -⟩ := load_ok hv
    exact absurd i.isLt (by omega)
  · rw [hs.store_fails]
    simp [hout]
  · rw [hs.store_succeeds]
    simp [hout]
  · exact absurd ((hs.store_succeeds index v).1 ⟨a', ha'⟩).1 (hout index)

/-! ### Edits -/

/-- An edit does not touch the declared kind. The elements have the number and the kind of those
that it gives to the array or, if it gives none, of those that were there. -/
theorem edit_keeps (a : ArrayObject) (e : Edit) :
    (a.edit e).declared = a.declared ∧
      (a.edit e).storage.kind = (e.storage?.getD a.storage).kind ∧
      (a.edit e).length = (e.storage?.getD a.storage).length := by
  cases e with
  | replace s => exact ⟨rfl, rfl, rfl⟩
  | store index v =>
    cases h : a.store index v with
    | error f =>
      have hedit : a.edit (.store index v) = a := by simp only [edit, h]
      rw [hedit]
      exact ⟨rfl, rfl, rfl⟩
    | ok a' =>
      have hedit : a.edit (.store index v) = a' := by simp only [edit, h]
      have hreplaced := replacedAt_of_store h
      rw [hedit]
      exact ⟨hreplaced.declared, hreplaced.kind, hreplaced.length⟩

theorem edited_concat (a : ArrayObject) (edits : List Edit) (e : Edit) :
    a.edited (edits ++ [e]) = (a.edited edits).edit e := by
  rw [edited, List.foldl_append]
  rfl

/-- The last edit decides what the storage is, if it replaces it. -/
theorem lastStorage_concat (a : ArrayObject) (edits : List Edit) (e : Edit) :
    a.lastStorage (edits ++ [e]) = e.storage?.getD (a.lastStorage edits) := by
  rw [lastStorage, List.foldl_append]
  rfl

/-- Edits do not touch the declared kind, and the elements have the number and the kind of those
that the array was given last. -/
theorem edited_keeps (a : ArrayObject) (edits : List Edit) :
    (a.edited edits).declared = a.declared ∧
      (a.edited edits).storage.kind = (a.lastStorage edits).kind ∧
      (a.edited edits).length = (a.lastStorage edits).length := by
  induction edits using List.reverseRecOn with
  | nil => exact ⟨rfl, rfl, rfl⟩
  | append_singleton edits e ih =>
    obtain ⟨hdeclared, hkind, hlength⟩ := ih
    obtain ⟨hdeclared', hkind', hlength'⟩ := (a.edited edits).edit_keeps e
    rw [edited_concat, lastStorage_concat]
    refine ⟨hdeclared'.trans hdeclared, hkind'.trans ?_, hlength'.trans ?_⟩
    · cases e.storage? with
      | none => exact hkind
      | some s => rfl
    · cases e.storage? with
      | none => exact hlength
      | some s => rfl

/-- However an array is written to and given other elements, its declared kind stays what it
was. Its bounds are those of the elements that it was given last, and it is their kind by which
every access is judged, not the declared one, unless the two are the same or there are no
elements. -/
theorem edited_accessedAs_iff (a : ArrayObject) (edits : List Edit) (k : ElementKind) :
    (a.edited edits).declared = a.declared ∧
      (a.edited edits).length = (a.lastStorage edits).length ∧
      ((a.edited edits).AccessedAs k ↔
        (a.lastStorage edits).length = 0 ∨ (a.lastStorage edits).kind = k) := by
  obtain ⟨hdeclared, hkind, hlength⟩ := a.edited_keeps edits
  have hstorage := (a.edited edits).accessedAs_storage
  refine ⟨hdeclared, hlength, fun h => ?_, ?_⟩
  · refine or_iff_not_imp_left.2 fun hne => ?_
    rw [← hkind]
    exact hstorage.kind_eq h (hlength ▸ hne)
  · rintro (hzero | rfl)
    · exact accessedAs_of_length_eq_zero (hlength.trans hzero) k
    · rwa [hkind] at hstorage

/-- A byte array that is given ints keeps an int that is too large for a byte, one that is given
longs refuses ints, and what is read from it is not an int. -/
theorem not_forall_edited_accessedAs_declared :
    (¬ ∀ (k : ElementKind) (n : Nat) (edits : List Edit),
      ((zeroed k n).edited edits).AccessedAs k) ∧
      (∃ a', ((zeroed .byte 1).edited [.replace (.zeroed .int 1)]).store 0 (.int 300) = .ok a' ∧
        a'.load 0 = .ok (.int 300) ∧ ElementKind.byte.stored (.int 300) = .int 44) ∧
      ((zeroed .byte 1).edited [.replace (.zeroed .long 1)]).store 0 (.int 300) =
        .error (.arrayStore .byte .int) ∧
      ∃ v, ((zeroed .byte 1).edited [.replace (.zeroed .long 1)]).load 0 = .ok v ∧
        v.kind = .long := by
  have hint := ((zeroed .byte 1).edited [.replace (.zeroed .int 1)]).accessedAs_storage
  have hlong := ((zeroed .byte 1).edited [.replace (.zeroed .long 1)]).accessedAs_storage
  have hin (k : ElementKind) : ((zeroed .byte 1).edited [.replace (.zeroed k 1)]).InBounds 0 :=
    ⟨Int.le_refl 0, Int.zero_lt_one⟩
  obtain ⟨a', ha'⟩ := (hint.store_succeeds 0 (.int 300)).2 ⟨hin .int, rfl⟩
  refine ⟨fun hall => ?_, ⟨a', ha', hint.narrows _ _ _ ha', by decide⟩, ?_,
    load_of_inBounds (hin .long)⟩
  · cases hint.kind_eq (hall .byte 1 _) Nat.one_ne_zero
  · exact (hlong.store_fails _ _ _).2 (.inr ⟨hin .long, by decide, rfl⟩)

end ArrayObject

end StackMachine
