import StackMachine.Value

/-!
# Static fields

A table of named values. Defining a field fixes its kind, which is the kind of
its value from then on: a put of another kind is refused, and only a new
definition changes it.
-/

namespace StackMachine

/-- Why a static field could not be read or written. -/
inductive FieldError where
  /-- There is no field of that name. -/
  | unknown (name : String)
  /-- The field has another kind than the value. -/
  | kindMismatch (name : String) (declared found : Kind)
deriving DecidableEq, Repr

/-- The wording of a field error. -/
def FieldError.message : FieldError → String
  | unknown name => "unknown static field '" ++ name ++ "'"
  | kindMismatch name declared found =>
    "static field '" ++ name ++ "' is " ++ declared.name ++ ", not " ++ found.name

/-- The static fields. -/
structure Statics where
  /-- Names and values, in the order of first definition. -/
  fields : List (String × Value)
  /-- Every name occurs once. -/
  nodup : (fields.map Prod.fst).Nodup
deriving DecidableEq

namespace Statics

/-- The fields with the value of one name replaced. -/
def replace (name : String) (v : Value) : List (String × Value) → List (String × Value)
  | [] => []
  | (n, w) :: rest => if n = name then (n, v) :: rest else (n, w) :: replace name v rest

@[simp] theorem map_fst_replace (name : String) (v : Value) (fields : List (String × Value)) :
    (replace name v fields).map Prod.fst = fields.map Prod.fst := by
  induction fields with
  | nil => rfl
  | cons field rest ih =>
    unfold replace
    split <;> simp [ih]

/-- Replacing the value of a name leaves the other names alone. -/
theorem lookup_replace (name other : String) (v : Value) (fields : List (String × Value)) :
    (replace name v fields).lookup other =
      if other = name then (fields.lookup name).map fun _ => v else fields.lookup other := by
  induction fields with
  | nil => simp [replace]
  | cons field rest ih =>
    obtain ⟨n, w⟩ := field
    unfold replace
    by_cases hn : n = name
    · subst hn
      by_cases ho : other = n
      · simp [ho]
      · simp [List.lookup_cons, ho, beq_eq_false_iff_ne.2 ho]
    · have hne : (name == n) = false := beq_eq_false_iff_ne.2 fun h => hn h.symm
      by_cases ho : other = n
      · subst ho
        simp [hn]
      · simp [List.lookup_cons, hn, hne, beq_eq_false_iff_ne.2 ho, ih]

/-- The table without fields. -/
def empty : Statics := ⟨[], by simp⟩

/-- The number of fields. -/
def length (s : Statics) : Nat := s.fields.length

/-- The value of a field. -/
def find? (s : Statics) (name : String) : Option Value := s.fields.lookup name

/-- A name under which nothing is found is none of the names. -/
theorem notMem_names_of_find? {s : Statics} {name : String} (h : s.find? name = none) :
    name ∉ s.fields.map Prod.fst := by
  intro hm
  obtain ⟨⟨n, w⟩, hf, rfl⟩ := List.mem_map.1 hm
  simpa using List.lookup_eq_none_iff.1 h (n, w) hf

/-- Define a field, or define it anew with a value of any kind. -/
def define (s : Statics) (name : String) (v : Value) : Statics :=
  match h : s.find? name with
  | some _ => ⟨replace name v s.fields, by simpa using s.nodup⟩
  | none => ⟨s.fields ++ [(name, v)], by
      rw [List.map_append, List.nodup_append]
      refine ⟨s.nodup, by simp, fun a ha b hb => ?_⟩
      have hb : b = name := by simpa using hb
      exact fun hab => notMem_names_of_find? h (hb ▸ hab ▸ ha)⟩

/-- A field that has been defined has its value, and the others are what they were. -/
theorem find?_define (s : Statics) (name other : String) (v : Value) :
    (s.define name v).find? other = if other = name then some v else s.find? other := by
  unfold define
  split
  · rename_i w h
    refine (lookup_replace name other v s.fields).trans ?_
    by_cases ho : other = name
    · have h : s.fields.lookup name = some w := h
      simp [ho, h]
    · simp [ho, find?]
  · rename_i h
    by_cases ho : other = name
    · subst ho
      have h : s.fields.lookup other = none := h
      simp [find?, List.lookup_append, h]
    · simp [find?, List.lookup_append, List.lookup_cons, beq_eq_false_iff_ne.2 ho, ho]

/-- The value of a field that has to exist. -/
def get (s : Statics) (name : String) : Except FieldError Value :=
  match s.find? name with
  | some v => .ok v
  | none => .error (.unknown name)

/-- Give a field that has to exist a value of its own kind. -/
def put (s : Statics) (name : String) (v : Value) : Except FieldError Statics :=
  match s.find? name with
  | none => .error (.unknown name)
  | some w =>
    if w.kind = v.kind then .ok ⟨replace name v s.fields, by simpa using s.nodup⟩
    else .error (.kindMismatch name w.kind v.kind)

/-- A put replaces the value of a field of the same kind. -/
theorem exists_of_put {s t : Statics} {name : String} {v : Value} (h : s.put name v = .ok t) :
    ∃ w, s.find? name = some w ∧ w.kind = v.kind ∧ t.fields = replace name v s.fields := by
  unfold put at h
  split at h
  · cases h
  · rename_i w hw
    split at h
    · rename_i hk
      cases h
      exact ⟨w, hw, hk, rfl⟩
    · cases h

/-- A put fails if there is no such field, or if it is of another kind. -/
theorem put_error {s : Statics} {name : String} {v : Value} {e : FieldError}
    (h : s.put name v = .error e) :
    (s.find? name = none ∧ e = .unknown name) ∨
      ∃ w, s.find? name = some w ∧ w.kind ≠ v.kind ∧ e = .kindMismatch name w.kind v.kind := by
  unfold put at h
  split at h
  · cases h
    exact .inl ⟨‹_›, rfl⟩
  · rename_i w hw
    split at h
    · cases h
    · rename_i hk
      cases h
      exact .inr ⟨w, hw, hk, rfl⟩

/-- A field that has been put has its value, and the others are what they were. -/
theorem find?_put {s t : Statics} {name : String} {v : Value} (h : s.put name v = .ok t)
    (other : String) : t.find? other = if other = name then some v else s.find? other := by
  obtain ⟨w, hw, -, hfields⟩ := exists_of_put h
  have hw : s.fields.lookup name = some w := hw
  rw [find?, hfields, lookup_replace]
  by_cases ho : other = name
  · simp [ho, hw]
  · simp [ho, find?]

end Statics

end StackMachine
