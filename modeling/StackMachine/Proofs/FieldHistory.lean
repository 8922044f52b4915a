import Mathlib.Data.Finset.Card
import StackMachine.Proofs.Growth

/-!
# The history of static fields

A table of static fields is what its history has made of it: a field has the value that it was
last defined with or last given, and the kind that it was last defined with. Only a definition
makes a field or changes its kind, and no instruction defines one. So an execution leaves the
names and the kinds of the fields as they were, and what a field holds in the end is what was
last put into it, in whichever activation, or else what it held at first.
-/

namespace StackMachine

/-! ### Tables -/

namespace Statics

/-- What can be done with a table of static fields. -/
inductive Operation where
  | define (name : String) (v : Value)
  | get (name : String)
  | put (name : String) (v : Value)
  | length

/-- What an operation answers. -/
inductive Answer where
  | done
  | value (v : Value)
  | number (n : Nat)
  | refused (e : FieldError)

/-- Carry out an operation on a table. -/
def perform (s : Statics) : Operation → Answer × Statics
  | .define name v => (.done, s.define name v)
  | .get name =>
    match s.get name with
    | .ok v => (.value v, s)
    | .error e => (.refused e, s)
  | .put name v =>
    match s.put name v with
    | .ok s' => (.done, s')
    | .error e => (.refused e, s)
  | .length => (.number s.length, s)

/-- The table after operations on an empty one, of which the latest comes first. -/
def after : List Operation → Statics
  | [] => .empty
  | operation :: earlier => ((after earlier).perform operation).2

/-- The kind that a field was last defined with. -/
def declared? (name : String) : List Operation → Option Kind
  | [] => none
  | .define name' v :: earlier => if name' = name then some v.kind else declared? name earlier
  | .get _ :: earlier | .put .. :: earlier | .length :: earlier => declared? name earlier

/-- The value that a field was last defined with or successfully given: a value can be given to
a field that has been defined with its kind. -/
def latest? (name : String) : List Operation → Option Value
  | [] => none
  | .define name' v :: earlier => if name' = name then some v else latest? name earlier
  | .put name' v :: earlier =>
    if name' = name ∧ declared? name earlier = some v.kind then some v else latest? name earlier
  | .get _ :: earlier | .length :: earlier => latest? name earlier

/-- The names that have been defined. -/
def definedNames (history : List Operation) : Finset String :=
  (history.filterMap fun
    | .define name _ => some name
    | _ => none).toFinset

/-- A table answers as its history says. -/
structure Answers (history : List Operation) (s : Statics) : Prop where
  get : ∀ name, (s.perform (.get name)).1 =
    (latest? name history).elim (.refused (.unknown name)) .value
  /-- Exactly the fields that have never been defined are unknown. -/
  unknown : ∀ name, latest? name history = none ↔ ∀ v, .define name v ∉ history
  put : ∀ name v, (s.perform (.put name v)).1 =
    match declared? name history with
    | none => .refused (.unknown name)
    | some k => if k = v.kind then .done else .refused (.kindMismatch name k v.kind)
  /-- Only the field that is given a value changes. -/
  changes : ∀ name v other, (s.perform (.put name v)).1 = .done →
    (s.perform (.put name v)).2.find? other = if other = name then some v else s.find? other
  /-- What is refused changes nothing. -/
  refused : ∀ operation e, (s.perform operation).1 = .refused e → (s.perform operation).2 = s
  length : (s.perform .length).1 = .number (definedNames history).card
  /-- A field holds a value of the kind that it was last defined with. -/
  kind : ∀ name, (s.find? name).map Value.kind = declared? name history

/-- A put succeeds, fails on the kind of the field or finds no such field. -/
theorem put_eq (s : Statics) (name : String) (v : Value) :
    (∃ w s', s.find? name = some w ∧ w.kind = v.kind ∧ s.put name v = .ok s') ∨
      (∃ w, s.find? name = some w ∧ w.kind ≠ v.kind ∧
        s.put name v = .error (.kindMismatch name w.kind v.kind)) ∨
      s.find? name = none ∧ s.put name v = .error (.unknown name) := by
  cases hput : s.put name v with
  | ok s' =>
    obtain ⟨w, hw, hk, -⟩ := exists_of_put hput
    exact .inl ⟨w, s', hw, hk, rfl⟩
  | error e =>
    rcases put_error hput with ⟨hnone, rfl⟩ | ⟨w, hw, hk, rfl⟩
    · exact .inr (.inr ⟨hnone, rfl⟩)
    · exact .inr (.inl ⟨w, hw, hk, rfl⟩)

/-- The kinds of the fields are those of their definitions. -/
theorem kinds_after (history : List Operation) (name : String) :
    ((after history).find? name).map Value.kind = declared? name history := by
  induction history with
  | nil => rfl
  | cons operation earlier ih =>
    cases operation with
    | define name' v =>
      change (((after earlier).define name' v).find? name).map Value.kind = _
      rw [find?_define, declared?]
      by_cases hn : name' = name
      · rw [if_pos hn, if_pos hn.symm]
        rfl
      · rw [if_neg hn, if_neg (Ne.symm hn), ih]
    | get name' =>
      rw [declared?, after, perform]
      split <;> exact ih
    | put name' v =>
      rw [declared?, after, perform]
      split
      · rename_i s' hput
        exact (congrFun (kinds_put hput) name).trans ih
      · exact ih
    | length => exact ih

/-- The values of the fields are the latest ones. -/
theorem find?_after (history : List Operation) (name : String) :
    (after history).find? name = latest? name history := by
  induction history with
  | nil => rfl
  | cons operation earlier ih =>
    cases operation with
    | define name' v =>
      change ((after earlier).define name' v).find? name = _
      rw [find?_define, latest?]
      by_cases hn : name' = name
      · rw [if_pos hn, if_pos hn.symm]
      · rw [if_neg hn, if_neg (Ne.symm hn), ih]
    | get name' =>
      rw [latest?, after, perform]
      split <;> exact ih
    | put name' v =>
      have hkind := kinds_after earlier name
      rw [latest?, after, perform]
      rcases put_eq (after earlier) name' v with
        ⟨w, s', hw, hk, hput⟩ | ⟨w, hw, hk, hput⟩ | ⟨hw, hput⟩ <;> rw [hput]
      · refine (find?_put hput name).trans ?_
        by_cases hn : name' = name
        · subst hn
          have hdeclared : declared? name' earlier = some v.kind := by
            rw [← hkind, hw, Option.map_some, hk]
          rw [if_pos rfl, if_pos ⟨rfl, hdeclared⟩]
        · rw [if_neg (Ne.symm hn), if_neg fun h => hn h.1, ih]
      · refine Eq.trans ih (if_neg ?_).symm
        rintro ⟨rfl, hdeclared⟩
        rw [← hkind, hw] at hdeclared
        exact hk (Option.some.inj hdeclared)
      · refine Eq.trans ih (if_neg ?_).symm
        rintro ⟨rfl, hdeclared⟩
        rw [← hkind, hw] at hdeclared
        cases hdeclared
    | length => exact ih

/-- A field has a latest value if and only if it has been defined. -/
theorem latest?_eq_none_iff (history : List Operation) (name : String) :
    latest? name history = none ↔ ∀ v, .define name v ∉ history := by
  induction history with
  | nil => exact ⟨fun _ _ => List.not_mem_nil, fun _ => rfl⟩
  | cons operation earlier ih =>
    cases operation with
    | define name' v =>
      rw [latest?]
      by_cases hn : name' = name
      · subst hn
        rw [if_pos rfl]
        exact ⟨nofun, fun h => absurd (List.mem_cons_self ..) (h v)⟩
      · rw [if_neg hn, ih]
        refine forall_congr' fun w => ?_
        rw [List.mem_cons, Operation.define.injEq, or_iff_right fun h => hn h.1.symm]
    | get | length => simpa [latest?] using ih
    | put name' v =>
      have hcons : (∀ w, .define name w ∉ .put name' v :: earlier) ↔
          ∀ w, .define name w ∉ earlier := by simp
      rw [latest?, hcons, ← ih]
      split
      · rename_i hput
        -- A field that could be given a value has been defined.
        have hfound := kinds_after earlier name
        rw [hput.2, find?_after] at hfound
        refine ⟨nofun, fun hnone => ?_⟩
        rw [hnone] at hfound
        cases hfound
      · exact Iff.rfl

/-- The names of a table are those under which it finds something. -/
theorem mem_names_iff (s : Statics) (name : String) :
    name ∈ s.fields.map Prod.fst ↔ s.find? name ≠ none := by
  constructor
  · intro hm hnone
    exact notMem_names_of_find? hnone hm
  · intro hne
    obtain ⟨v, hv⟩ := Option.ne_none_iff_exists'.1 hne
    obtain ⟨before, later, hfields, -⟩ := List.lookup_eq_some_iff.1 hv
    rw [hfields, List.map_append, List.map_cons]
    exact List.mem_append_right _ (List.mem_cons_self ..)

/-- The names in a history are those that it defines. -/
theorem mem_definedNames_iff (history : List Operation) (name : String) :
    name ∈ definedNames history ↔ ∃ v, .define name v ∈ history := by
  rw [definedNames, List.mem_toFinset, List.mem_filterMap]
  constructor
  · rintro ⟨operation, hmem, hname⟩
    cases operation with
    | define name' v =>
      cases hname
      exact ⟨v, hmem⟩
    | _ => cases hname
  · rintro ⟨v, hmem⟩
    exact ⟨_, hmem, rfl⟩

/-- The number of fields is that of the names that have been defined. -/
theorem length_after (history : List Operation) :
    (after history).length = (definedNames history).card := by
  have hnames : ((after history).fields.map Prod.fst).toFinset = definedNames history := by
    ext name
    rw [List.mem_toFinset, mem_names_iff, find?_after, Ne, latest?_eq_none_iff,
      mem_definedNames_iff]
    push Not
    rfl
  rw [← hnames, List.toFinset_card_of_nodup (after history).nodup, List.length_map]
  rfl

/-- What becomes of a table answers as its history demands. -/
theorem answers_after (history : List Operation) : Answers history (after history) where
  get name := by
    rw [← find?_after, perform, get]
    cases (after history).find? name <;> rfl
  unknown := latest?_eq_none_iff history
  put name v := by
    rw [← kinds_after, perform]
    rcases put_eq (after history) name v with
      ⟨w, s', hw, hk, hput⟩ | ⟨w, hw, hk, hput⟩ | ⟨hw, hput⟩ <;> rw [hput, hw]
    · exact (if_pos hk).symm
    · exact (if_neg hk).symm
    · rfl
  changes name v other hdone := by
    rw [perform] at hdone ⊢
    cases hput : (after history).put name v with
    | ok s' => exact find?_put hput other
    | error e =>
      rw [hput] at hdone
      cases hdone
  refused operation e he := by
    cases operation with
    | define => cases he
    | get name =>
      rw [perform]
      split <;> rfl
    | put name v =>
      rw [perform] at he ⊢
      cases hput : (after history).put name v with
      | ok s' =>
        rw [hput] at he
        cases he
      | error e' => rfl
    | length => rfl
  length := congrArg Answer.number (length_after history)
  kind := kinds_after history

/-- A table has become another one by values being put into its fields, of which the latest comes
first. -/
structure Since (s : Statics) (puts : List (String × Value)) (s' : Statics) : Prop where
  names : s'.fields.map Prod.fst = s.fields.map Prod.fst
  kinds : s'.kinds = s.kinds
  value : ∀ name, s'.find? name = (puts.lookup name).or (s.find? name)

theorem Since.refl (s : Statics) : s.Since [] s := ⟨rfl, rfl, fun _ => rfl⟩

/-- Two histories of puts are one, of which the later puts come first. -/
theorem Since.trans {s s' s'' : Statics} {puts puts' : List (String × Value)}
    (h : s.Since puts s') (h' : s'.Since puts' s'') : s.Since (puts' ++ puts) s'' where
  names := h'.names.trans h.names
  kinds := h'.kinds.trans h.kinds
  value name := by rw [h'.value, h.value, List.lookup_append, Option.or_assoc]

/-- A put is a history of one put. -/
theorem since_put {s s' : Statics} {name : String} {v : Value} (h : s.put name v = .ok s') :
    s.Since [(name, v)] s' where
  names := by
    obtain ⟨w, -, -, hfields⟩ := exists_of_put h
    rw [hfields, map_fst_replace]
  kinds := kinds_put h
  value other := by
    rw [find?_put h, List.lookup_cons, List.lookup_nil]
    by_cases ho : other = name
    · rw [if_pos ho, ho, beq_self_eq_true]
      rfl
    · rw [if_neg ho, beq_eq_false_iff_ne.2 ho]
      rfl

end Statics

/-! ### Steps -/

/-- What a step puts into a static field, and into which one, if it is the step of a put that
completes. -/
def Instruction.put? (i : Instruction Value) (m : Machine) : Option (String × Value) :=
  match i.opcode, i.field?, m.frame.stack, Action.step i m with
  | .putstatic, some f, v :: _, .ok _ _ => some (f.name, v)
  | _, _, _, _ => none

namespace Instruction

variable {i : Instruction Value} {m : Machine}

/-- Another instruction puts nothing. -/
theorem put?_of_ne (h : i.opcode ≠ .putstatic) : i.put? m = none := by
  unfold put?
  split
  · exact absurd ‹_› h
  · rfl

/-- A step that fails puts nothing. -/
theorem put?_of_error {e : Failure} {m' : Machine} (h : Action.step i m = .error e m') :
    i.put? m = none := by
  unfold put?
  rw [h]
  split
  · rename_i hok
    cases hok
  · rfl

/-- Other instructions than a put leave the static fields alone. -/
theorem Yields.statics_eq {taken : List Value} {s : Store} {e : Effect} (h : i.Yields taken s e)
    (hop : i.opcode ≠ .putstatic) : e.store.statics = s.statics := by
  cases h with
  | putstatic => exact absurd rfl hop
  | _ => rfl

/-- A put gives its field the value on top of the stack, and leads on to the next instruction. -/
theorem Yields.put {taken : List Value} {s : Store} {e : Effect} (h : i.Yields taken s e)
    (hop : i.opcode = .putstatic) :
    ∃ f v, i.field? = some f ∧ taken = [v] ∧ e.pushes = [] ∧ e.move = .next ∧
      s.statics.put f.name v = .ok e.store.statics := by
  cases h with
  | putstatic x put => exact ⟨_, _, rfl, rfl, rfl, rfl, put⟩
  | _ => cases hop

end Instruction

/-- What a step does to the static fields is what it puts into them. -/
theorem Action.since_of_step (i : Instruction Value) (m : Machine) :
    m.statics.Since (i.put? m).toList (Machine.leftBy (step i m)).statics := by
  rcases step_cases i m with ⟨c, m', hs, hc⟩ | ⟨e, m', hs, hf⟩
  · cases hc with
    | @intro p args below e plan stack effect room =>
      have hyields := Instruction.yields_of_effect plan effect
      by_cases hop : i.opcode = .putstatic
      · obtain ⟨f, v, hfield, hvalues, -, -, hput⟩ := hyields.put hop
        have hputs : i.put? m = some (f.name, v) := by
          unfold Instruction.put?
          rw [hop, hfield, stack, hvalues, hs]
          rfl
        rw [hs, hputs]
        exact Statics.since_put hput
      · have hstatics := hyields.statics_eq hop
        rw [hs, Instruction.put?_of_ne hop]
        change m.statics.Since [] e.store.statics
        rw [hstatics]
        exact .refl _
  · rw [hs, Instruction.put?_of_error hs]
    cases hf with
    | operand | argument | refused => exact .refl _
    | @overflow p args below e n plan stack effect pushed full =>
      -- A put pushes nothing, so it is not what overflows the stack.
      have hop : i.opcode ≠ .putstatic := by
        intro hop
        obtain ⟨f, v, -, -, hpushes, -⟩ := (Instruction.yields_of_effect plan effect).put hop
        rw [hpushes] at pushed
        cases pushed
      change m.statics.Since [] e.store.statics
      rw [(Instruction.yields_of_effect plan effect).statics_eq hop]
      exact .refl _

/-! ### Executions -/

/-- What has been put into static fields on the way to a point, in whichever activation, the
latest first. -/
inductive Course.Puts {Point : Type} (c : Course Point) : List (String × Value) → Point → Prop where
  | start : Puts c [] c.start
  | step {puts : List (String × Value)} {p p' : Point} {i : Instruction Value}
      (before : Puts c puts p) (here : c.AtInstruction p i) (next : c.next p p') :
      Puts c ((i.put? (c.machine p)).toList ++ puts) p'

/-- All that an execution does to static fields is to put values into them. -/
structure Course.KeepsFields {Point : Type} (c : Course Point) (left : Machine) : Prop where
  told : ∀ p, c.Visits p → ∃ puts, c.Puts puts p
  since : ∀ puts p, c.Puts puts p →
    (c.machine c.start).statics.Since puts (c.machine p).statics
  /-- The execution ends where it can come no further, without another put. -/
  ends : ∃ last, c.Visits last ∧ (∀ p, ¬ c.next last p) ∧
    (∀ i, c.AtInstruction last i → i.put? (c.machine last) = none) ∧
    ∀ puts, c.Puts puts last → (c.machine c.start).statics.Since puts left.statics

namespace Course

variable {Point : Type} {c : Course Point} {left : Machine}

/-- Every point of an execution comes after some puts. -/
theorem exists_puts (hat : ∀ p p', c.next p p' → ∃ i, c.AtInstruction p i) {p : Point}
    (h : c.Visits p) : ∃ puts, c.Puts puts p := by
  induction h with
  | refl => exact ⟨[], .start⟩
  | tail _ hnext ih =>
    obtain ⟨puts, hputs⟩ := ih
    obtain ⟨i, here⟩ := hat _ _ hnext
    exact ⟨_, .step hputs here hnext⟩

/-- The fields at a point are what the puts before it have made of them. -/
theorem Puts.since
    (hstep : ∀ p p' i, c.AtInstruction p i → c.next p p' →
      (c.machine p).statics.Since (i.put? (c.machine p)).toList (c.machine p').statics)
    {puts : List (String × Value)} {p : Point} (h : c.Puts puts p) :
    (c.machine c.start).statics.Since puts (c.machine p).statics := by
  induction h with
  | start => exact .refl _
  | step _ here hnext ih => exact ih.trans (hstep _ _ _ here hnext)

/-- An execution keeps the static fields if every step on the way does to them what it puts into
them, and the last one puts nothing. -/
theorem KeepsFields.of_steps
    (hat : ∀ p p', c.next p p' → ∃ i, c.AtInstruction p i)
    (hstep : ∀ p p' i, c.AtInstruction p i → c.next p p' →
      (c.machine p).statics.Since (i.put? (c.machine p)).toList (c.machine p').statics)
    {last : Point} (hvisits : c.Visits last) (hlast : ∀ p, ¬ c.next last p)
    (hnone : ∀ i, c.AtInstruction last i → i.put? (c.machine last) = none)
    (hleft : (c.machine last).statics.Since [] left.statics) : c.KeepsFields left where
  told _ := exists_puts hat
  since _ _ := Puts.since hstep
  ends := ⟨last, hvisits, hlast, hnone, fun _ hputs => (hputs.since hstep).trans hleft⟩

end Course

/-- A put that completes is followed by the next instruction. -/
theorem Instruction.step_of_put? {i : Instruction Value} {m : Machine} {put : String × Value}
    (h : i.put? m = some put) : ∃ m', Action.step i m = .ok .next m' := by
  by_cases hop : i.opcode = .putstatic
  · rcases Action.step_cases i m with ⟨c, m', hs, hc⟩ | ⟨e, m', hs, hf⟩
    · cases hc with
      | @intro p args below e plan stack effect room =>
        obtain ⟨f, v, -, -, -, hmove, -⟩ := (yields_of_effect plan effect).put hop
        rw [hmove] at hs
        exact ⟨_, hs⟩
    · rw [put?_of_error hs] at h
      cases h
  · rw [put?_of_ne hop] at h
    cases h

/-- A run of a block keeps the fields, and what it has put last is left. -/
theorem Block.keepsFields_of_run (block : Block) (m : Machine) :
    (block.course m).KeepsFields (Machine.leftBy (Action.run block m)) := by
  have hstep (n n' : Machine) (i : Instruction Value) (here : block[n.frame.pc]? = some i)
      (h : block.Continues n n') : n.statics.Since (i.put? n).toList n'.statics := by
    obtain ⟨j, hj, hs⟩ := h
    obtain rfl : i = j := Option.some.inj (here.symm.trans hj)
    have hsince := Action.since_of_step i n
    rw [hs] at hsince
    exact hsince
  obtain ⟨last, hvisits, hlast, hend⟩ := block.exists_end_of_run m
  have hnone (i : Instruction Value) (here : block[last.frame.pc]? = some i) :
      i.put? last = none := by
    refine Option.eq_none_iff_forall_ne_some.2 fun put hput => ?_
    obtain ⟨m', hs⟩ := i.step_of_put? hput
    exact hlast m' ⟨i, here, hs⟩
  refine .of_steps (fun n n' ⟨i, here, _⟩ => ⟨i, here⟩) hstep hvisits hlast hnone ?_
  rcases hend with ⟨-, hrun⟩ | ⟨i, here, hrun⟩
  · rw [hrun]
    exact .refl _
  · have hsince := Action.since_of_step i last
    rw [hnone i here] at hsince
    rw [hrun]
    exact hsince

namespace FlatMachine

variable {methods : Methods} {f g : FlatMachine}

/-- A move does to the static fields what its instruction does. -/
theorem since_of_move (methods : Methods) {i : Instruction Value}
    (here : f.top.block[f.top.frame.pc]? = some i) :
    f.statics.Since (i.put? f.machine).toList (f.move methods).machine.statics := by
  rw [(move_shared here).1]
  exact Action.since_of_step i f.machine

/-- A move from which there is none further does not put anything. -/
theorem put?_of_last (hlast : ∀ g, f.move methods ≠ .running g) {i : Instruction Value}
    (here : f.top.block[f.top.frame.pc]? = some i) : i.put? f.machine = none := by
  refine Option.eq_none_iff_forall_ne_some.2 fun put hput => ?_
  obtain ⟨m', hs⟩ := i.step_of_put? hput
  refine hlast (f.withMachine m') ?_
  rw [move_of_step here, hs]
  rfl

/-- The last move leaves the static fields alone. -/
theorem since_of_last (hlast : ∀ g, f.move methods ≠ .running g) :
    f.statics.Since [] (f.move methods).machine.statics := by
  cases here : f.top.block[f.top.frame.pc]? with
  | none =>
    rw [move_of_end here]
    exact .refl _
  | some i =>
    have hsince := since_of_move methods here
    rw [put?_of_last hlast here] at hsince
    exact hsince

/-- An invocation keeps the fields, and what it has put last is left. -/
theorem keepsFields_of_invoke (methods : Methods) (block : Block) (m : Machine) :
    (course methods block m).KeepsFields
      (Machine.leftBy (Invocation.invoke methods block m)) := by
  obtain ⟨last, hvisits, hend⟩ := exists_last_of_invoke methods block m
  have hlast (g : FlatMachine) : last.move methods ≠ .running g := by
    intro hrunning
    rcases hend with ⟨v, g', hmove, -⟩ | ⟨e, g', hmove, -⟩ <;>
      · rw [hrunning] at hmove
        cases hmove
  refine .of_steps (fun f g hmove => ?_) (fun f g i here hmove => ?_) hvisits hlast
    (fun i here => put?_of_last hlast here) ?_
  · cases here : f.top.block[f.top.frame.pc]? with
    | none =>
      have hmove : f.move methods = .running g := hmove
      rw [move_of_end here] at hmove
      cases hmove
    | some i => exact ⟨i, here⟩
  · have hmove : f.move methods = .running g := hmove
    have hsince := since_of_move methods here
    rw [hmove] at hsince
    exact hsince
  · have hsince := since_of_last hlast
    rcases hend with ⟨v, g, hmove, hinvoke⟩ | ⟨e, g, hmove, hinvoke⟩ <;>
      · rw [hmove] at hsince
        rw [hinvoke]
        exact hsince

end FlatMachine

/-- A table answers every operation as its history says, and no execution changes the names or
the kinds of the fields: a field has the value that was last put into it, in whichever
activation, or else the one that it had when the execution began. -/
theorem static_fields_follow_history :
    (∀ history, Statics.Answers history (Statics.after history)) ∧
      (∀ (block : Block) (m : Machine),
        (block.course m).KeepsFields (Machine.leftBy (Action.run block m))) ∧
      ∀ (methods : Methods) (block : Block) (m : Machine),
        (FlatMachine.course methods block m).KeepsFields
          (Machine.leftBy (Invocation.invoke methods block m)) :=
  ⟨Statics.answers_after, Block.keepsFields_of_run, FlatMachine.keepsFields_of_invoke⟩

end StackMachine
