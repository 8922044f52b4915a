import StackMachine.Command
import StackMachine.Proofs.Growth
import StackMachine.Proofs.Reading

/-!
# What running and evaluating report

The exit code tells which of two things has gone wrong, if any: the input, or an instruction.
Nothing but an error message is written if something has, and a single line if nothing has. That
it is a single line rests on the names of classes and methods, which are words, since they have
been read as such, and on the text of a string, in which line ends are escaped. No execution adds
a name to the heap.

What an execution starts with is said here text by text and slot by slot, and what it shows event
by event, apart from the computations that a report is made by.
-/

namespace StackMachine

/-! ### Lines -/

namespace Text

/-- A text stays on one line. -/
def IsLine (s : String) : Prop := ∀ c ∈ s.toList, IsInline c

instance (s : String) : Decidable (IsLine s) :=
  decidable_of_iff (s.toList.all fun c => c != '\n' && c != '\r') (by simp [IsLine, IsInline])

/-- Two texts on one line make one line. -/
theorem IsLine.append {s t : String} (hs : IsLine s) (ht : IsLine t) : IsLine (s ++ t) := by
  intro c hc
  rw [String.toList_append, List.mem_append] at hc
  exact hc.elim (hs c) (ht c)

/-- So do any number of them, with separators on that line. -/
theorem IsLine.intercalate {separator : String} {texts : List String} (hs : IsLine separator)
    (h : ∀ t ∈ texts, IsLine t) : IsLine (separator.intercalate texts) := by
  induction texts with
  | nil => exact fun c hc => absurd hc (by simp)
  | cons t texts ih =>
    rw [List.forall_mem_cons] at h
    cases texts with
    | nil => exact h.1
    | cons u texts =>
      rw [String.intercalate_cons_cons]
      exact (h.1.append hs).append (ih h.2)

end Text

open Text (IsLine)

/-- A word stays on one line. -/
theorem Assembly.IsWord.isLine {s : String} (h : IsWord s) : IsLine s :=
  fun c hc => Token.isInline_of_isWordChar (h.isWordChar c hc)

/-- The text of a literal stays on one line if the name in it is a word. -/
theorem Literal.isLine_text {l : Literal} (h : ∀ name, l = .className name → Assembly.IsWord name) :
    IsLine l.text := by
  have hfits (hl : l.Fits l.kind.isWide) : IsLine l.text := by
    rw [l.text_eq]
    exact fun c => Assembly.Token.isInline_of_mem_intercalate (Assembly.isPlain_tokens hl)
  cases l with
  | array k n => exact (Assembly.isWord_arrayText k n).isLine
  | className name => exact hfits ⟨rfl, h name rfl⟩
  | int | long | float | double | null | string => exact hfits ⟨rfl, trivial⟩

/-! ### Names on the heap -/

/-- The names of classes on a heap are words. -/
def Heap.NamesWords (h : Heap) : Prop :=
  ∀ r name, h.object? r = some (.className name) → Assembly.IsWord name

namespace Heap.NamesWords

variable {h h' : Heap}

/-- There is no name on the empty heap. -/
theorem empty : Heap.empty.NamesWords := by
  intro r name hr
  cases r with
  | null => cases hr
  | _ address => simp [Heap.empty, object?] at hr

/-- A new object adds a word at most. -/
theorem alloc {o : Object} (hh : h.NamesWords)
    (ho : ∀ name, o = .className name → Assembly.IsWord name) : (h.alloc o).2.NamesWords := by
  intro r name hr
  by_cases hnew : r = (h.alloc o).1
  · rw [hnew, object?_alloc] at hr
    exact ho name (Option.some.inj hr)
  · rw [object?_alloc_ne h o hnew] at hr
    exact hh r name hr

/-- A literal that fits adds a word at most. -/
theorem load {wide : Bool} {l : Literal} (hh : h.NamesWords) (hl : l.Fits wide) :
    (l.load h).2.NamesWords := by
  cases l with
  | string => exact hh.alloc nofun
  | className name =>
    refine hh.alloc fun name' he => ?_
    cases he
    exact hl.2
  | array => exact hh.alloc nofun
  | int | long | float | double | null => exact hh

/-- No execution adds a name. -/
theorem of_grows (hh : h.NamesWords) (hgrows : h.Grows h') : h'.NamesWords := by
  intro r name hr
  cases ho : h.object? r with
  | none =>
    obtain ⟨a, ha, -⟩ := hgrows.added r _ ho hr
    cases ha
  | some o =>
    obtain ⟨o', ho', hbecomes⟩ := hgrows.kept r o ho
    rw [hr] at ho'
    cases ho'
    cases hbecomes
    exact hh r name ho

/-- The text of a value stays on one line, whatever it refers to. -/
theorem isLine_text (hh : h.NamesWords) (v : Value) : IsLine (v.text h) := by
  refine Literal.isLine_text fun name hname => ?_
  cases v with
  | reference r =>
    change ((h.object? r).map Literal.ofObject).getD .null = _ at hname
    cases ho : h.object? r with
    | none =>
      rw [ho] at hname
      cases hname
    | some o =>
      rw [ho] at hname
      cases o with
      | className name' =>
        cases hname
        exact hh r name ho
      | array | string => cases hname
  | int | long | float | double => cases hname

end Heap.NamesWords

/-! ### What is shown -/

/-- A line says what control event there has been. -/
inductive Control.Shows (h : Heap) : Control → String → Prop where
  | next : Shows h .next "fallthrough"
  | branch (pc : Nat) (offset : Int16) : Shows h (.branch pc offset)
      ("branch " ++ Numeral.signedText offset.toInt ++ " at " ++ Numeral.natText pc)
  | invoke (method : MethodRef) (args : List Value) : Shows h (.invoke method args)
      ("invoke " ++ method.name ++ "(" ++ ", ".intercalate (args.map (·.text h)) ++ ")")
  | void : Shows h (.return none) "return void"
  | value (v : Value) : Shows h (.return (some v)) ("return " ++ v.text h)

/-- There is one line for each control event. -/
theorem Control.shows_iff {h : Heap} {c : Control} {line : String} :
    c.Shows h line ↔ line = c.text h := by
  constructor
  · intro hshows
    cases hshows <;> rfl
  · rintro rfl
    cases c with
    | next => exact .next
    | branch pc offset => exact .branch pc offset
    | invoke method args => exact .invoke method args
    | «return» v =>
      cases v with
      | none => exact .void
      | some v => exact .value v

/-- What is written about a control event stays on one line. -/
theorem Control.Shows.isLine {h : Heap} {c : Control} {line : String} (hshows : c.Shows h line)
    (hh : h.NamesWords)
    (hmethod : ∀ method args, c = .invoke method args → Assembly.IsWord method.name) :
    IsLine line := by
  cases hshows with
  | next => exact (by decide : IsLine "fallthrough")
  | branch pc offset =>
    have hoffset := (Assembly.isWord_signedText offset.toInt).isLine
    have hpc := (Assembly.isWord_natText pc).isLine
    exact (((by decide : IsLine "branch ").append hoffset).append (by decide)).append hpc
  | invoke method args =>
    have hname := (hmethod method args rfl).isLine
    have hargs : IsLine (", ".intercalate (args.map (·.text h))) := by
      refine .intercalate (by decide) fun t ht => ?_
      obtain ⟨v, -, rfl⟩ := List.mem_map.1 ht
      exact hh.isLine_text v
    exact ((((by decide : IsLine "invoke ").append hname).append (by decide)).append hargs).append
      (by decide)
  | void => exact (by decide : IsLine "return void")
  | value v => exact (by decide : IsLine "return ").append (hh.isLine_text v)

/-! ### What is read -/

namespace Assembly

variable {h : Heap}

/-- Loading statements that fit adds words only. -/
theorem namesWords_load {ss : List Statement} (hh : h.NamesWords) (hss : ∀ s ∈ ss, s.Fits) :
    (load h ss).2.NamesWords := by
  induction ss generalizing h with
  | nil => exact hh
  | cons s ss ih =>
    rw [List.forall_mem_cons] at hss
    refine ih ?_ hss.2
    have hs : s.operand.Fits Literal.Fits s.opcode.shape := hss.1
    generalize s.operand = o at hs ⊢
    cases o with
    | constant l =>
      generalize s.opcode.shape = shape at hs
      cases shape with
      | constant | wideConstant => exact hh.load hs
      | _ => exact hs.elim
    | _ => exact hh

/-- A value is read as a literal that its text gives back. -/
theorem stable_of_readValue {text : String} {l : Literal} (h : readValue text = .ok l) :
    l.Stable l.kind.isWide := by
  obtain ⟨ts, hts, h⟩ := exists_of_bind_ok (ok_of_mapError h)
  obtain ⟨⟨l', rest⟩, hl, h⟩ := exists_of_bind_ok h
  obtain ⟨_, -, h⟩ := exists_of_bind_ok h
  cases h
  exact stable_of_takeConstant (Token.isPlain_of_scan hts) hl

end Assembly

/-- Assembling a text adds words only. -/
theorem namesWords_of_assemble {h h' : Heap} {text : String} {block : Block} (hh : h.NamesWords)
    (accepted : assemble h text = .ok (block, h')) : h'.NamesWords := by
  obtain ⟨ss, hread, hload⟩ := assemble_ok_iff.1 accepted
  have hfits : ∀ s ∈ ss, s.Fits := fun s hs => (Assembly.stable_of_read hread s hs).fits
  have hnames := Assembly.namesWords_load hh hfits
  rwa [hload] at hnames

namespace Command

/-- Texts are read one after the other as values, each of which is loaded onto the heap that the
one before has left. -/
inductive ReadInTurn : Heap → List String → List Value → Heap → Prop where
  | nil (h : Heap) : ReadInTurn h [] [] h
  | cons {text : String} {l : Literal} {h h' : Heap} {texts : List String} {vs : List Value}
      (first : Assembly.readValue text = .ok l)
      (others : ReadInTurn (l.load h).2 texts vs h') :
      ReadInTurn h (text :: texts) ((l.load h).1 :: vs) h'

namespace ReadInTurn

variable {h h' h'' : Heap} {texts : List String} {vs vs' : List Value}

/-- The texts say what the values are. -/
theorem unique (hr : ReadInTurn h texts vs h') (hr' : ReadInTurn h texts vs' h'') :
    vs' = vs ∧ h'' = h' := by
  induction hr generalizing vs' with
  | nil h =>
    cases hr'
    exact ⟨rfl, rfl⟩
  | cons first _ ih =>
    cases hr' with
    | cons first' others' =>
      cases first'.symm.trans first
      obtain ⟨rfl, rfl⟩ := ih others'
      exact ⟨rfl, rfl⟩

/-- There is one value for each text. -/
theorem length_eq (hr : ReadInTurn h texts vs h') : vs.length = texts.length := by
  induction hr with
  | nil => rfl
  | cons _ _ ih => exact congrArg (· + 1) ih

/-- Each of the texts is that of a value. -/
theorem reads (hr : ReadInTurn h texts vs h') : ∀ t ∈ texts, ∃ l, Assembly.readValue t = .ok l := by
  induction hr with
  | nil => exact List.forall_mem_nil _
  | cons first _ ih => exact List.forall_mem_cons.2 ⟨⟨_, first⟩, ih⟩

/-- The names of the classes that values are read as are words. -/
theorem namesWords (hr : ReadInTurn h texts vs h') (hh : h.NamesWords) : h'.NamesWords := by
  induction hr with
  | nil => exact hh
  | cons first _ ih => exact ih (hh.load (Assembly.stable_of_readValue first).1)

end ReadInTurn

/-- Values are read in turn unless one of the texts has none. -/
theorem readValues_cases (h : Heap) (texts : List String) :
    (∃ vs h', readValues h texts = .ok (vs, h') ∧ ReadInTurn h texts vs h') ∨
      ∃ message, readValues h texts = .error message ∧
        ∃ t ∈ texts, ∃ e, Assembly.readValue t = .error e := by
  induction texts generalizing h with
  | nil => exact .inl ⟨[], h, rfl, .nil h⟩
  | cons t texts ih =>
    rw [readValues]
    cases ht : Assembly.readValue t with
    | error e => exact .inr ⟨_, rfl, t, List.mem_cons_self .., e, ht⟩
    | ok l =>
      dsimp only
      rcases ih (l.load h).2 with ⟨vs, h', hread, hturn⟩ | ⟨message, hread, u, hu, e, he⟩
      · refine .inl ⟨(l.load h).1 :: vs, h', ?_, .cons ht hturn⟩
        rw [hread]
        rfl
      · refine .inr ⟨message, ?_, u, List.mem_cons_of_mem _ hu, e, he⟩
        rw [hread]
        rfl

/-- The values that texts are read as, and the heap they leave, are those that are read in turn. -/
theorem readValues_ok_iff {h h' : Heap} {texts : List String} {vs : List Value} :
    readValues h texts = .ok (vs, h') ↔ ReadInTurn h texts vs h' := by
  rcases readValues_cases h texts with ⟨ws, h'', read, hturn⟩ | ⟨message, read, t, ht, e, he⟩
  · rw [read]
    constructor
    · intro heq
      cases heq
      exact hturn
    · intro hturn'
      obtain ⟨rfl, rfl⟩ := hturn.unique hturn'
      rfl
  · rw [read]
    refine iff_of_false nofun fun hturn => ?_
    obtain ⟨l, hl⟩ := hturn.reads t ht
    cases he.symm.trans hl

end Command

/-! ### What is executed -/

/-- The method that an instruction of a well-formed block calls has a word for a name. -/
theorem Block.WellFormed.isWord {block : Block} {h : Heap} {i : Instruction Value}
    (hblock : block.WellFormed h) (hi : i ∈ block) {m m' : Machine} {method : MethodRef}
    {args : List Value} (hstep : Action.step i m = .ok (.invoke method args) m') :
    Assembly.IsWord method.name := by
  obtain ⟨hop, hoperand⟩ := Instruction.method_of_invoke hstep
  have hfits := hblock i hi
  rw [hop, hoperand] at hfits
  exact hfits

/-- What is shown of a step of a well-formed block stays on one line. -/
theorem Block.WellFormed.isLine_step {block : Block} {h : Heap} {i : Instruction Value}
    (hblock : block.WellFormed h) (hi : i ∈ block) {m m' : Machine} {c : Control}
    (hm : m.heap.NamesWords) (hstep : Action.step i m = .ok c m') :
    m'.heap.NamesWords ∧ ∀ line, c.Shows m'.heap line → IsLine line := by
  have hgrows := Action.grows_of_step i m
  rw [hstep] at hgrows
  have hnames := hm.of_grows hgrows
  refine ⟨hnames, fun line hshows => hshows.isLine hnames fun method args hc => ?_⟩
  subst hc
  exact hblock.isWord hi hstep

/-- What is shown of a run of a well-formed block stays on one line. -/
theorem Block.WellFormed.isLine_run {block : Block} {h : Heap} (hblock : block.WellFormed h)
    {m m' : Machine} {c : Control} (hm : m.heap.NamesWords)
    (hrun : Action.run block m = .ok c m') {line : String} (hshows : c.Shows m'.heap line) :
    IsLine line := by
  obtain ⟨last, hvisits, hlast⟩ := block.exists_last_of_run m
  have hnames := hm.of_grows (Block.grows_of_reaches hvisits)
  rcases hlast with ⟨-, hend⟩ | ⟨i, here, hend⟩
  · rw [hrun] at hend
    cases hend
    exact hshows.isLine hnames nofun
  · rw [hrun] at hend
    exact (hblock.isLine_step (List.mem_of_getElem? here) hnames hend.symm).2 line hshows

/-- Values are pushed as results are. -/
theorem Command.pushAll_eq (vs : List Value) : pushAll vs = Action.pushAll vs := by
  induction vs with
  | nil => rfl
  | cons v vs ih => rw [pushAll, Action.pushAll, ih]

/-- Values are pushed onto an empty stack unless they are too many. -/
theorem Command.pushAll_cases (vs : List Value) (locals : Locals) (maxStack : Nat) (h : Heap) :
    (vs.length ≤ maxStack ∧ pushAll vs ⟨.new locals maxStack, .empty, h⟩ =
        .ok () ⟨⟨vs.reverse, locals, 0, maxStack⟩, .empty, h⟩) ∨
      (maxStack < vs.length ∧
        ∃ e m, pushAll vs ⟨.new locals maxStack, .empty, h⟩ = .error e m) := by
  rw [pushAll_eq]
  by_cases hroom : vs.length ≤ maxStack
  · refine .inl ⟨hroom, ?_⟩
    rw [Action.pushAll_of_room]
    · exact congrArg (fun stack => EStateM.Result.ok () (Machine.mk ⟨stack, _, _, _⟩ _ _))
        (List.append_nil _)
    · exact .inr ((Nat.zero_add _).trans_le hroom)
  · have hfull := Nat.not_le.1 hroom
    have hne : vs ≠ [] := by
      rintro rfl
      cases hfull
    obtain ⟨n, -, -, hpush⟩ := Action.pushAll_of_full ⟨.new locals maxStack, .empty, h⟩ hne
      (Nat.lt_of_lt_of_eq hfull (Nat.zero_add _).symm)
    exact .inr ⟨hfull, _, _, hpush⟩

/-! ### Reports -/

/-- What a report says about a request: whether its input is at fault, or else an instruction has
failed, or else what it comes to. -/
structure Report.Tells (r : Report) (fault failure : Prop) (shows : String → Prop) : Prop where
  faulty : r.code = 1 ↔ fault
  failed : r.code = 3 ↔ ¬ fault ∧ failure
  succeeded : r.code = 0 ↔ ¬ fault ∧ ¬ failure
  /-- Nothing is wrong, and a single line is written. -/
  line : r.code = 0 → r.err = "" ∧ ∃ line, shows line ∧ IsLine line ∧ r.out = line ++ "\n"
  /-- Something is wrong, and only error messages are written. -/
  silent : r.code ≠ 0 → r.out = ""

namespace Report.Tells

variable {fault failure : Prop} {shows : String → Prop}

/-- An error message about the input tells that the input is at fault. -/
theorem inputError (h : fault) (message : String) :
    (Report.inputError message).Tells fault failure shows where
  faulty := iff_of_true rfl h
  failed := iff_of_false nofun fun h' => h'.1 h
  succeeded := iff_of_false nofun fun h' => h'.1 h
  line := nofun
  silent _ := rfl

/-- An error message about an instruction tells that it has failed. -/
theorem runtimeError (h : ¬ fault) (h' : failure) (e : Failure) :
    (Report.runtimeError e).Tells fault failure shows where
  faulty := iff_of_false nofun h
  failed := iff_of_true rfl ⟨h, h'⟩
  succeeded := iff_of_false nofun fun hs => hs.2 h'
  line := nofun
  silent _ := rfl

/-- A line tells that nothing has gone wrong. -/
theorem ok (h : ¬ fault) (h' : ¬ failure) {line : String} (hshows : shows line)
    (hline : IsLine line) : (Report.ok line).Tells fault failure shows where
  faulty := iff_of_false nofun h
  failed := iff_of_false nofun fun hf => h' hf.2
  succeeded := iff_of_true rfl ⟨h, h'⟩
  line _ := ⟨rfl, line, hshows, hline, rfl⟩
  silent hne := absurd rfl hne

/-- A report on an execution whose input is not at fault shows its failure or what it comes to. -/
theorem of_result {report : Report} {R : EStateM.Result Failure Machine Control → Prop}
    {r : EStateM.Result Failure Machine Control} {S : Control → Machine → String → Prop}
    (h : ¬ fault) (hr : R r) (hunique : ∀ r', R r' → r' = r)
    (herror : ∀ e m, r = .error e m → report = .runtimeError e)
    (hok : ∀ c m, r = .ok c m → ∃ line, report = .ok line ∧ S c m line ∧ IsLine line) :
    report.Tells fault (∃ e m, R (.error e m)) fun line => ∃ c m, R (.ok c m) ∧ S c m line := by
  cases r with
  | error e m =>
    rw [herror e m rfl]
    exact .runtimeError h ⟨e, m, hr⟩ e
  | ok c m =>
    obtain ⟨line, hreport, hshown, hline⟩ := hok c m rfl
    rw [hreport]
    refine .ok h ?_ ⟨c, m, hr, hshown⟩ hline
    rintro ⟨e, m', he⟩
    cases hunique _ he

end Report.Tells

namespace Command

/-- The input of a run is at fault. -/
def RunFault (readFile : String → Except String String) (path : String) (locals : List String) :
    Prop :=
  (∃ reason, readFile path = .error reason) ∨
    (∃ text e, readFile path = .ok text ∧ assemble .empty text = .error e) ∨
    ∃ t ∈ locals, ∃ e, Assembly.readValue t = .error e

/-- A machine is about to execute its first instruction. It has no static fields, and its local
slots are its arguments, padded with zeros. -/
structure StartsWith (m : Machine) (stack args : List Value) (maxStack : Nat) : Prop where
  stack : m.frame.stack = stack
  slots : ∀ n : Nat, m.frame.locals.slots[n]? =
    (args[n]?).or (if n < Locals.minimum then some (.int 0) else none)
  pc : m.frame.pc = 0
  maxStack : m.frame.maxStack = maxStack
  statics : m.statics = .empty

/-- What a run comes to whose input is not at fault. -/
inductive Runs (readFile : String → Except String String) (path : String) (locals : List String)
    (maxStack : Nat) : EStateM.Result Failure Machine Control → Prop where
  | intro {text : String} {block : Block} {h : Heap} {args : List Value} {m : Machine}
      (file : readFile path = .ok text) (assembled : assemble .empty text = .ok (block, h))
      (values : ReadInTurn h locals args m.heap) (start : StartsWith m [] args maxStack) :
      Runs readFile path locals maxStack (Action.run block m)

/-- The input of an evaluation is at fault. -/
def EvalFault (instruction : String) (values : List String) : Prop :=
  (∃ e, assemble .empty instruction = .error e) ∨
    (∃ block h, assemble .empty instruction = .ok (block, h) ∧ block.length ≠ 1) ∨
    (∃ t ∈ values, ∃ e, Assembly.readValue t = .error e) ∨
    Frame.defaultMaxStack < values.length

/-- What an evaluation comes to whose input is not at fault. The last value is on top of the
stack. -/
inductive Evaluates (instruction : String) (values : List String) :
    EStateM.Result Failure Machine Control → Prop where
  | intro {i : Instruction Value} {h : Heap} {vs : List Value} {m : Machine}
      (assembled : assemble .empty instruction = .ok ([i], h))
      (read : ReadInTurn h values vs m.heap) (room : vs.length ≤ Frame.defaultMaxStack)
      (start : StartsWith m vs.reverse [] Frame.defaultMaxStack) :
      Evaluates instruction values (Action.step i m)

/-- What is shown of an evaluation: the top of the stack, or a control event. -/
inductive EvalShows : Control → Machine → String → Prop where
  | top {m : Machine} {v : Value} {stack : List Value} (htop : m.frame.stack = v :: stack) :
      EvalShows .next m (v.text m.heap)
  | empty {m : Machine} (hempty : m.frame.stack = []) : EvalShows .next m "empty stack"
  | event {c : Control} {m : Machine} {line : String} (hc : c ≠ .next)
      (shown : c.Shows m.heap line) : EvalShows c m line

/-- There is no more to a start than is said of it. -/
theorem StartsWith.eq {m : Machine} {stack args : List Value} {maxStack : Nat}
    (h : StartsWith m stack args maxStack) :
    m = ⟨⟨stack, .ofArguments args, 0, maxStack⟩, .empty, m.heap⟩ := by
  obtain ⟨⟨_, locals, _, _⟩, _, heap⟩ := m
  obtain ⟨rfl, hslots, rfl, rfl, rfl⟩ := h
  have hlocals : locals = .ofArguments args := congrArg Locals.mk
    (Array.ext_getElem? fun n => (hslots n).trans (Locals.slots_ofArguments args n).symm)
  rw [hlocals]

/-- A new frame with values on its stack is such a start. -/
theorem startsWith (stack args : List Value) (maxStack : Nat) (h : Heap) :
    StartsWith ⟨⟨stack, .ofArguments args, 0, maxStack⟩, .empty, h⟩ stack args maxStack :=
  ⟨rfl, Locals.slots_ofArguments args, rfl, rfl, rfl⟩

/-- A run comes to one result. -/
theorem Runs.eq {readFile : String → Except String String} {path text : String}
    {locals : List String} {maxStack : Nat} {r : EStateM.Result Failure Machine Control}
    {block : Block} {h h' : Heap} {args : List Value} (hruns : Runs readFile path locals maxStack r)
    (file : readFile path = .ok text) (assembled : assemble .empty text = .ok (block, h))
    (values : ReadInTurn h locals args h') :
    r = Action.run block ⟨.new (.ofArguments args) maxStack, .empty, h'⟩ := by
  obtain ⟨file', assembled', values', start⟩ := hruns
  rw [file] at file'
  cases file'
  rw [assembled] at assembled'
  cases assembled'
  obtain ⟨rfl, hheap⟩ := values.unique values'
  rw [start.eq, hheap]
  rfl

/-- An evaluation comes to one result. -/
theorem Evaluates.eq {instruction : String} {values : List String}
    {r : EStateM.Result Failure Machine Control} {i : Instruction Value} {h h' : Heap}
    {vs : List Value} (hevaluates : Evaluates instruction values r)
    (assembled : assemble .empty instruction = .ok ([i], h))
    (read : ReadInTurn h values vs h') :
    r = Action.step i ⟨⟨vs.reverse, .ofArguments [], 0, Frame.defaultMaxStack⟩, .empty, h'⟩ := by
  obtain ⟨assembled', read', -, start⟩ := hevaluates
  rw [assembled] at assembled'
  cases assembled'
  obtain ⟨rfl, hheap⟩ := read.unique read'
  rw [start.eq, hheap]

/-- Text that assembles and values that can be read are no fault. -/
theorem not_runFault {readFile : String → Except String String} {path text : String}
    {locals : List String} {loaded : Block × Heap} (file : readFile path = .ok text)
    (assembled : assemble .empty text = .ok loaded)
    (values : ∀ t ∈ locals, ∃ l, Assembly.readValue t = .ok l) :
    ¬ RunFault readFile path locals := by
  rintro (⟨reason, hreason⟩ | ⟨text', e, file', he⟩ | ⟨t, ht, e, he⟩)
  · rw [file] at hreason
    cases hreason
  · rw [file] at file'
    cases file'
    rw [assembled] at he
    cases he
  · obtain ⟨l, hl⟩ := values t ht
    rw [hl] at he
    cases he

/-- A single instruction, and values that can be read and have room, are no fault. -/
theorem not_evalFault {instruction : String} {values : List String} {i : Instruction Value}
    {h : Heap} (assembled : assemble .empty instruction = .ok ([i], h))
    (read : ∀ t ∈ values, ∃ l, Assembly.readValue t = .ok l)
    (room : values.length ≤ Frame.defaultMaxStack) : ¬ EvalFault instruction values := by
  rintro (⟨e, he⟩ | ⟨block, h', he, hne⟩ | ⟨t, ht, e, he⟩ | hmany)
  · rw [assembled] at he
    cases he
  · rw [assembled] at he
    cases he
    exact hne rfl
  · obtain ⟨l, hl⟩ := read t ht
    rw [hl] at he
    cases he
  · exact Nat.not_lt.2 room hmany

/-- The text of a block is run if it assembles and the values of the locals can be read. -/
theorem runText_tells {readFile : String → Except String String} {path text : String}
    (file : readFile path = .ok text) (locals : List String) (maxStack : Nat) :
    (runText text locals maxStack).Tells (RunFault readFile path locals)
      (∃ e m, Runs readFile path locals maxStack (.error e m)) fun line =>
        ∃ c m, Runs readFile path locals maxStack (.ok c m) ∧ c.Shows m.heap line := by
  unfold runText
  cases assembled : assemble .empty text with
  | error e => exact .inputError (.inr (.inl ⟨text, e, file, assembled⟩)) _
  | ok loaded =>
    obtain ⟨block, h⟩ := loaded
    dsimp only
    rcases readValues_cases h locals with ⟨args, h', read, hturn⟩ | ⟨message, read, hbad⟩
    · have hheap : h'.NamesWords := hturn.namesWords (namesWords_of_assemble .empty assembled)
      have hblock := wellFormed_of_assemble assembled
      have hruns : Runs readFile path locals maxStack
          (Action.run block ⟨.new (.ofArguments args) maxStack, .empty, h'⟩) :=
        .intro file assembled hturn (startsWith [] args maxStack h')
      rw [read]
      refine .of_result (S := fun c m line => c.Shows m.heap line)
        (not_runFault file assembled hturn.reads) hruns
        (fun r hr => hr.eq file assembled hturn) (fun e m hrun => ?_) fun c m hrun =>
          ⟨c.text m.heap, ?_, Control.shows_iff.2 rfl,
            hblock.isLine_run hheap hrun (Control.shows_iff.2 rfl)⟩
      · dsimp only
        rw [hrun]
      · dsimp only
        rw [hrun]
    · rw [read]
      exact .inputError (.inr (.inr hbad)) _

/-- What is shown of a step is on one line if what its control event shows is. -/
theorem EvalShows.isLine {c : Control} {m : Machine} {line : String} (hshows : EvalShows c m line)
    (hm : m.heap.NamesWords) (hc : ∀ line, c.Shows m.heap line → IsLine line) : IsLine line := by
  cases hshows with
  | top htop => exact hm.isLine_text _
  | empty hempty => exact (by decide : IsLine "empty stack")
  | event hne shown => exact hc line shown

/-- An instruction is evaluated if it is the only one, and the values can be read and have room. -/
theorem evalText_tells (instruction : String) (values : List String) :
    (evalText instruction values).Tells (EvalFault instruction values)
      (∃ e m, Evaluates instruction values (.error e m)) fun line =>
        ∃ c m, Evaluates instruction values (.ok c m) ∧ EvalShows c m line := by
  unfold evalText
  cases assembled : assemble .empty instruction with
  | error e => exact .inputError (.inl ⟨e, assembled⟩) _
  | ok loaded =>
    obtain ⟨block, h⟩ := loaded
    by_cases hone : block.length = 1
    · obtain ⟨i, rfl⟩ := List.length_eq_one_iff.1 hone
      dsimp only
      rcases readValues_cases h values with ⟨vs, h', read, hturn⟩ | ⟨message, read, hbad⟩
      · have hheap : h'.NamesWords := hturn.namesWords (namesWords_of_assemble .empty assembled)
        have hblock := wellFormed_of_assemble assembled
        rw [read]
        dsimp only
        rcases pushAll_cases vs (.ofArguments []) Frame.defaultMaxStack h' with
          ⟨room, hpush⟩ | ⟨full, e, m, hpush⟩
        · rw [hpush]
          dsimp only
          refine .of_result (R := Evaluates instruction values) (S := EvalShows)
            (not_evalFault assembled hturn.reads (hturn.length_eq ▸ room))
            (.intro assembled hturn room (startsWith vs.reverse [] Frame.defaultMaxStack h'))
            (fun r hr => hr.eq assembled hturn) (fun e m hstep => ?_) fun c m hstep => ?_
          · rw [hstep]
          · obtain ⟨hm, hline⟩ := hblock.isLine_step (List.mem_cons_self ..) hheap hstep
            rw [hstep]
            suffices hshows : ∃ line, _ = Report.ok line ∧ EvalShows c m line by
              obtain ⟨line, hreport, hshows⟩ := hshows
              exact ⟨line, hreport, hshows, hshows.isLine hm hline⟩
            cases c with
            | next =>
              cases hstack : m.frame.stack with
              | nil =>
                refine ⟨_, ?_, .empty hstack⟩
                dsimp only
                rw [hstack]
              | cons v stack =>
                refine ⟨_, ?_, .top hstack⟩
                dsimp only
                rw [hstack]
            | branch | invoke | «return» => exact ⟨_, rfl, .event nofun (Control.shows_iff.2 rfl)⟩
        · rw [hpush]
          exact .inputError (.inr (.inr (.inr (hturn.length_eq ▸ full)))) _
      · rw [read]
        exact .inputError (.inr (.inr (.inl hbad))) _
    · have hfault : EvalFault instruction values := .inr (.inl ⟨block, h, assembled, hone⟩)
      split
      · cases ‹_›
      · rename_i hloaded
        cases hloaded
        exact absurd rfl hone
      · exact .inputError hfault _

/-- A run and an evaluation exit with 1 if and only if their input is at fault, otherwise with 3
if and only if an instruction fails, and otherwise with 0. On success they write nothing but a
single line, which shows what the execution comes to, and otherwise no output. -/
theorem report_tells :
    (∀ readFile path locals maxStack,
      (report readFile (.run path locals maxStack)).Tells (RunFault readFile path locals)
        (∃ e m, Runs readFile path locals maxStack (.error e m)) fun line =>
          ∃ c m, Runs readFile path locals maxStack (.ok c m) ∧ c.Shows m.heap line) ∧
      ∀ readFile instruction values,
        (report readFile (.eval instruction values)).Tells (EvalFault instruction values)
          (∃ e m, Evaluates instruction values (.error e m)) fun line =>
            ∃ c m, Evaluates instruction values (.ok c m) ∧ EvalShows c m line := by
  refine ⟨fun readFile path locals maxStack => ?_,
    fun readFile instruction values => evalText_tells instruction values⟩
  unfold report
  dsimp only
  cases file : readFile path with
  | error reason => exact .inputError (.inl ⟨reason, file⟩) _
  | ok text => exact runText_tells file locals maxStack

end Command

end StackMachine
