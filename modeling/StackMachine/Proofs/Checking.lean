import StackMachine.Catalog.Fixture
import StackMachine.Proofs.Tables

/-!
# Checking fixtures

A fixture passes its check exactly if its program and its methods can be assembled, and the
outcome of the program is the expected one. What is expected is said here outcome by outcome, and
what the program starts with is said lookup by lookup: of several methods or static fields of one
name the last listed one counts. This determines the start up to the order of tables, on which no
outcome depends.
-/

namespace StackMachine

/-! ### What a program starts with -/

/-- Of all that is listed under a name, something is listed last. -/
def ListedLast {α : Type} (l : List (String × α)) (name : String) (x : α) : Prop :=
  ∃ before after, l = before ++ (name, x) :: after ∧ ∀ p ∈ after, p.1 ≠ name

/-- A text can be assembled, whatever objects there are already. -/
def Assembles (text : String) : Prop := ∀ h : Heap, ∃ p, assemble h text = .ok p

/-- Named texts are assembled one after the other, each onto the heap that the one before has
left. -/
inductive AssembleInTurn : Heap → List (String × String) → List (String × Block) → Heap → Prop where
  | nil (h : Heap) : AssembleInTurn h [] [] h
  | cons (name : String) {text : String} {h h₁ h₂ : Heap} {body : Block}
      {rest : List (String × String)} {bodies : List (String × Block)}
      (first : assemble h text = .ok (body, h₁)) (others : AssembleInTurn h₁ rest bodies h₂) :
      AssembleInTurn h ((name, text) :: rest) ((name, body) :: bodies) h₂

/-- The program of a fixture starts on a machine, with methods to call. -/
structure Fixture.Starts (f : Fixture) (methods : Methods) (block : Block) (m : Machine) :
    Prop where
  /-- The program is assembled before the methods, of which the last listed one of a name counts. -/
  assembled : ∃ h bodies, assemble f.heap f.code = .ok (block, h) ∧
    AssembleInTurn h f.methods bodies m.heap ∧
      ∀ name body, methods.find? name = some body ↔ ListedLast bodies name body
  statics : ∀ name v, m.statics.find? name = some v ↔ ListedLast f.statics name v
  stack : m.frame.stack = []
  pc : m.frame.pc = 0
  maxStack : m.frame.maxStack = Frame.defaultMaxStack
  /-- The arguments are padded with zeros. -/
  slots : ∀ n : Nat, m.frame.locals.slots[n]? =
    (f.args[n]?).or (if n < Locals.minimum then some (.int 0) else none)

/-! ### What is expected -/

/-- An expectation is met by an outcome. -/
inductive Expectation.Met :
    Expectation → EStateM.Result InvocationError Machine (Option Value) → Prop where
  | returns (v : Value) (m : Machine) : Met (.returns v) (.ok (some v) m)
  | prints (v : Value) (m : Machine) : Met (.prints (v.text m.heap)) (.ok (some v) m)
  | void (m : Machine) : Met .void (.ok none m)
  | faults {text : String} {e : InvocationError} (m : Machine)
      (within : text.toList <:+: e.message.toList) : Met (.faults text) (.error e m)
  | leaves {name : String} {v : Value} {m : Machine} (result : Option Value)
      (field : m.statics.find? name = some v) : Met (.leaves name v) (.ok result m)

/-- The check of a fixture says whether its expectation is met. -/
structure Fixture.CheckDecides (f : Fixture) : Prop where
  /-- There is a start if the program and all methods can be assembled. -/
  starts : (∃ methods block m, f.Starts methods block m) ↔
    Assembles f.code ∧ ∀ p ∈ f.methods, Assembles p.2
  passes : f.check = .ok () ↔ ∃ methods block m, f.Starts methods block m ∧
    f.expectation.Met (Invocation.invoke methods block m)
  /-- One start is as good as another. -/
  passes_from : ∀ methods block m, f.Starts methods block m →
    (f.check = .ok () ↔ f.expectation.Met (Invocation.invoke methods block m))
  otherwise : f.check ≠ .ok () → ∃ flaw, f.check = .error flaw
  code : ∀ e, assemble f.heap f.code = .error e → f.check = .error (.code e)
  method : Assembles f.code → (∃ p ∈ f.methods, ¬ Assembles p.2) →
    ∃ name text h e, (name, text) ∈ f.methods ∧ assemble h text = .error e ∧
      f.check = .error (.method name e)
  /-- A failure that was not expected is reported as it is. -/
  failed : ∀ methods block m e m', f.Starts methods block m →
    Invocation.invoke methods block m = .error e m' → (∀ text, f.expectation ≠ .faults text) →
      f.check = .error (.failed e)

/-! ### Lists with names -/

/-- In a reversed list the last one of a name is found first. -/
theorem lookup_reverse_eq_some_iff {α : Type} {l : List (String × α)} {name : String} {x : α} :
    l.reverse.lookup name = some x ↔ ListedLast l name x := by
  rw [List.lookup_eq_some_iff]
  constructor
  · rintro ⟨after, before, heq, hafter⟩
    refine ⟨before.reverse, after.reverse, ?_, fun p hp => ?_⟩
    · rw [← List.reverse_reverse l, heq]
      simp
    · have hne := hafter p (List.mem_reverse.1 hp)
      exact fun he => by simp [he] at hne
  · rintro ⟨before, after, rfl, hafter⟩
    refine ⟨after.reverse, before.reverse, by simp, fun p hp => ?_⟩
    exact bne_iff_ne.2 (hafter p (List.mem_reverse.1 hp)).symm

/-- Fields that are defined one after the other are added to those that there are. -/
theorem Statics.find?_foldl_define (l : List (String × Value)) (s : Statics) (name : String) :
    (l.foldl (fun s (name, v) => s.define name v) s).find? name =
      (l.reverse.lookup name).or (s.find? name) := by
  induction l generalizing s with
  | nil => rfl
  | cons field rest ih =>
    obtain ⟨n, v⟩ := field
    rw [List.foldl_cons, ih, find?_define, List.reverse_cons, List.lookup_append, List.lookup_cons,
      Option.or_assoc]
    by_cases hn : name = n
    · simp [hn]
    · simp [hn, beq_eq_false_iff_ne.2 hn]

/-! ### Assembling -/

/-- What is assembled does not depend on the heap, apart from where its constants are. -/
theorem assembles_of_assemble {h : Heap} {text : String} {p : Block × Heap}
    (hp : assemble h text = .ok p) : Assembles text := by
  intro h'
  rw [assemble] at hp ⊢
  cases hread : Assembly.read text with
  | ok statements => exact ⟨_, rfl⟩
  | error e =>
    rw [hread] at hp
    cases hp

/-- A text that can be assembled fails on no heap. -/
theorem Assembles.ne_error {text : String} (ha : Assembles text) (h : Heap) (e : Assembly.Error) :
    assemble h text ≠ .error e := by
  intro he
  obtain ⟨p, hp⟩ := ha h
  cases hp.symm.trans he

namespace AssembleInTurn

variable {h h' h'' : Heap} {l : List (String × String)} {bodies bodies' : List (String × Block)}

/-- What is assembled in turn is determined by the texts. -/
theorem unique (ha : AssembleInTurn h l bodies h') (hb : AssembleInTurn h l bodies' h'') :
    bodies' = bodies ∧ h'' = h' := by
  induction ha generalizing bodies' with
  | nil h =>
    cases hb
    exact ⟨rfl, rfl⟩
  | cons name first others ih =>
    cases hb with
    | cons _ first' others' =>
      obtain ⟨rfl, rfl⟩ := Prod.mk.inj (Except.ok.inj (first'.symm.trans first))
      obtain ⟨rfl, rfl⟩ := ih others'
      exact ⟨rfl, rfl⟩

/-- Each of the texts can be assembled. -/
theorem assembles (ha : AssembleInTurn h l bodies h') : ∀ p ∈ l, Assembles p.2 := by
  induction ha with
  | nil => exact fun p hp => absurd hp List.not_mem_nil
  | cons name first _ ih => exact List.forall_mem_cons.2 ⟨assembles_of_assemble first, ih⟩

end AssembleInTurn

/-- All methods are assembled, or one of them is reported. -/
theorem Fixture.assembleMethods_cases (h : Heap) (known : Methods) (l : List (String × String)) :
    (∃ bodies h', AssembleInTurn h l bodies h' ∧
        assembleMethods h known l = .ok (⟨bodies.reverse ++ known.bodies⟩, h')) ∨
      ∃ name text h₁ e, (name, text) ∈ l ∧ assemble h₁ text = .error e ∧
        assembleMethods h known l = .error (.method name e) := by
  induction l generalizing h known with
  | nil => exact .inl ⟨[], h, .nil h, rfl⟩
  | cons method rest ih =>
    obtain ⟨name, text⟩ := method
    rw [assembleMethods]
    cases hfirst : assemble h text with
    | error e => exact .inr ⟨name, text, h, e, List.mem_cons_self, hfirst, rfl⟩
    | ok p =>
      obtain ⟨body, h₁⟩ := p
      rcases ih h₁ (known.insert name body) with
        ⟨bodies, h', hothers, heq⟩ | ⟨name', text', h₂, e, hmem, he, heq⟩
      · refine .inl ⟨(name, body) :: bodies, h', .cons name hfirst hothers, ?_⟩
        rw [List.reverse_cons, List.append_assoc]
        exact heq
      · exact .inr ⟨name', text', h₂, e, List.mem_cons_of_mem _ hmem, he, heq⟩

/-! ### Judging -/

theorem ite_eq_ok_iff {p : Prop} [Decidable p] {flaw : Flaw} :
    (if p then .ok () else .error flaw : Except Flaw Unit) = .ok () ↔ p := by
  split <;> simp [*]

namespace Expectation

/-- The judgement on an outcome is whether the expectation is met. -/
theorem judge_ok_iff (e : Expectation)
    (r : EStateM.Result InvocationError Machine (Option Value)) :
    e.judge r = .ok () ↔ e.Met r := by
  cases r with
  | error err m =>
    cases e with
    | faults text =>
      refine ite_eq_ok_iff.trans ⟨fun h => .faults m (Text.hasInfix_iff.1 h), fun h => ?_⟩
      cases h with
      | faults _ within => exact Text.hasInfix_iff.2 within
    | returns | prints | void | leaves => constructor <;> intro h <;> cases h
  | ok result m =>
    cases e with
    | faults text => constructor <;> intro h <;> cases h
    | returns v =>
      refine ite_eq_ok_iff.trans ⟨fun h => ?_, fun h => ?_⟩
      · exact h ▸ .returns v m
      · cases h
        rfl
    | prints text =>
      refine ite_eq_ok_iff.trans ⟨fun h => ?_, fun h => ?_⟩
      · obtain ⟨v, rfl, rfl⟩ := Option.map_eq_some_iff.1 h
        exact .prints v m
      · cases h
        rfl
    | void =>
      refine ite_eq_ok_iff.trans ⟨fun h => ?_, fun h => ?_⟩
      · exact h ▸ .void m
      · cases h
        rfl
    | leaves name v =>
      simp only [judge, Statics.get]
      cases hfind : m.statics.find? name with
      | none =>
        refine ⟨fun h => ?_, fun h => ?_⟩
        · cases h
        · cases h with
          | leaves _ field => cases hfind.symm.trans field
      | some w =>
        refine ite_eq_ok_iff.trans ⟨fun h => ?_, fun h => ?_⟩
        · exact .leaves result (hfind.trans (congrArg some h))
        · cases h with
          | leaves _ field => exact Option.some.inj (hfind.symm.trans field)

/-- The judgement does not depend on the tables that static fields are in. -/
theorem judge_congr (e : Expectation)
    {r r' : EStateM.Result InvocationError Machine (Option Value)} (h : EndsSame r r') :
    e.judge r' = e.judge r := by
  cases h with
  | ok result h => simp only [judge, h.heap, h.statics.get]
  | error err h => rfl

/-- Unless a fault is expected, a failure is reported as it is. -/
theorem judge_error {e : Expectation} (h : ∀ text, e ≠ .faults text) (err : InvocationError)
    (m : Machine) : e.judge (.error err m) = .error (.failed err) := by
  cases e with
  | faults text => exact absurd rfl (h text)
  | returns | prints | void | leaves => rfl

end Expectation

/-! ### Checking -/

namespace Fixture

variable {f : Fixture} {methods methods' : Methods} {block block' : Block} {m n : Machine}

/-- Two starts of a fixture differ in the order of tables only. -/
theorem Starts.endsSame (hm : f.Starts methods block m) (hn : f.Starts methods' block' n) :
    EndsSame (Invocation.invoke methods block m) (Invocation.invoke methods' block' n) := by
  obtain ⟨h, bodies, hcode, hturn, hmethods⟩ := hm.assembled
  obtain ⟨h', bodies', hcode', hturn', hmethods'⟩ := hn.assembled
  obtain ⟨rfl, rfl⟩ := Prod.mk.inj (Except.ok.inj (hcode'.symm.trans hcode))
  obtain ⟨rfl, hheap⟩ := hturn.unique hturn'
  have hlocals : n.frame.locals = m.frame.locals :=
    congrArg Locals.mk (Array.ext_getElem? fun i => (hn.slots i).trans (hm.slots i).symm)
  have hframe : n.frame = m.frame := by
    rw [Frame.mk.injEq]
    exact ⟨hn.stack.trans hm.stack.symm, hlocals, hn.pc.trans hm.pc.symm,
      hn.maxStack.trans hm.maxStack.symm⟩
  have hstatics : m.statics.SameFields n.statics := fun name =>
    Option.ext fun v => (hn.statics name v).trans (hm.statics name v).symm
  exact Invocation.invoke_endsSame
    (fun name => Option.ext fun body => (hmethods' name body).trans (hmethods name body).symm) _
    ⟨hframe, hstatics, hheap⟩

/-- A fixture is started and its outcome judged, or a text that cannot be assembled is
reported. -/
theorem check_cases (f : Fixture) :
    (∃ methods block m, f.Starts methods block m ∧
        f.check = f.expectation.judge (Invocation.invoke methods block m)) ∨
      (∃ e, assemble f.heap f.code = .error e ∧ f.check = .error (.code e)) ∨
      ∃ name text h e, (name, text) ∈ f.methods ∧ assemble h text = .error e ∧
        f.check = .error (.method name e) := by
  cases hcode : assemble f.heap f.code with
  | error e =>
    refine .inr (.inl ⟨e, rfl, ?_⟩)
    rw [check, hcode]
    rfl
  | ok p =>
    obtain ⟨block, h⟩ := p
    have hcheck : f.check = (assembleMethods h .empty f.methods >>= fun p =>
        f.expectation.judge (Invocation.invoke p.1 block
          ⟨Frame.new (.ofArguments f.args) Frame.defaultMaxStack,
            f.statics.foldl (fun s (name, v) => s.define name v) .empty, p.2⟩)) := by
      rw [check, hcode]
      rfl
    rcases assembleMethods_cases h .empty f.methods with
      ⟨bodies, h', hturn, heq⟩ | ⟨name, text, h₁, e, hmem, he, heq⟩
    · refine .inl ⟨_, block, _, ?_, by rw [hcheck, heq]; rfl⟩
      refine ⟨⟨h, bodies, hcode, hturn, fun name body => ?_⟩, fun name v => ?_, rfl, rfl, rfl,
        Locals.slots_ofArguments f.args⟩
      · rw [← lookup_reverse_eq_some_iff, Methods.find?, Methods.empty, List.append_nil]
      · rw [Statics.find?_foldl_define, ← lookup_reverse_eq_some_iff]
        exact iff_of_eq (congrArg (· = some v) (Option.or_none))
    · refine .inr (.inr ⟨name, text, h₁, e, hmem, he, ?_⟩)
      rw [hcheck, heq]
      rfl

/-- What is started has been assembled. -/
theorem Starts.assembles (h : f.Starts methods block m) :
    Assembles f.code ∧ ∀ p ∈ f.methods, Assembles p.2 := by
  obtain ⟨h, bodies, hcode, hturn, -⟩ := h.assembled
  exact ⟨assembles_of_assemble hcode, hturn.assembles⟩

/-- What can be assembled is started, and its outcome judged. -/
theorem exists_starts (hcode : Assembles f.code) (hmethods : ∀ p ∈ f.methods, Assembles p.2) :
    ∃ methods block m, f.Starts methods block m ∧
      f.check = f.expectation.judge (Invocation.invoke methods block m) := by
  rcases f.check_cases with h | ⟨e, he, -⟩ | ⟨name, text, h, e, hmem, he, -⟩
  · exact h
  · exact absurd he (hcode.ne_error _ e)
  · exact absurd he ((hmethods _ hmem).ne_error h e)

/-- Checking a fixture is judging its outcome, whichever start that is the outcome of. -/
theorem Starts.check_eq (h : f.Starts methods block m) :
    f.check = f.expectation.judge (Invocation.invoke methods block m) := by
  obtain ⟨methods', block', n, hn, hcheck⟩ := exists_starts h.assembles.1 h.assembles.2
  rw [hcheck]
  exact f.expectation.judge_congr (h.endsSame hn)

end Fixture

/-- A fixture passes exactly if it can be assembled and its expectation is met, and otherwise
there is something to report. -/
theorem check_decides_expectation (f : Fixture) : f.CheckDecides where
  starts := by
    refine ⟨fun ⟨_, _, _, h⟩ => h.assembles, fun ⟨hcode, hmethods⟩ => ?_⟩
    obtain ⟨methods, block, m, h, -⟩ := Fixture.exists_starts hcode hmethods
    exact ⟨methods, block, m, h⟩
  passes := by
    constructor
    · intro hpasses
      rcases f.check_cases with ⟨methods, block, m, h, heq⟩ | ⟨e, -, heq⟩ |
        ⟨name, text, h, e, -, -, heq⟩
      · exact ⟨methods, block, m, h, (Expectation.judge_ok_iff _ _).1 (heq.symm.trans hpasses)⟩
      · cases heq.symm.trans hpasses
      · cases heq.symm.trans hpasses
    · rintro ⟨methods, block, m, h, hmet⟩
      exact h.check_eq.trans ((Expectation.judge_ok_iff _ _).2 hmet)
  passes_from methods block m h := by
    rw [h.check_eq]
    exact Expectation.judge_ok_iff ..
  otherwise h := by
    cases hcheck : f.check with
    | ok u => exact absurd hcheck h
    | error flaw => exact ⟨flaw, rfl⟩
  code e he := by
    rw [Fixture.check, he]
    rfl
  method hcode hmethods := by
    obtain ⟨p, hmem, hp⟩ := hmethods
    rcases f.check_cases with ⟨methods, block, m, h, -⟩ | ⟨e, he, -⟩ | h
    · exact absurd (h.assembles.2 p hmem) hp
    · exact absurd he (hcode.ne_error _ e)
    · exact h
  failed methods block m e m' h he hfaults := by
    rw [h.check_eq, he]
    exact Expectation.judge_error hfaults e m'

end StackMachine
