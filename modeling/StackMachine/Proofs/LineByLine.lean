import StackMachine.Proofs.Canonical
import StackMachine.Proofs.Layout

/-!
# Assembling line by line

Every line of a text is read on its own. So the texts of two blocks, one behind the other, are
the text of one block after the other, the problem of a text is that of its first line that has
one, and lines without a statement do not matter but for the numbers of those behind them.
-/

namespace StackMachine

namespace Text

/-- The text is empty or its last line is ended. -/
def IsEnded (cs : List Char) : Prop := cs = [] ∨ cs.getLast? = some '\n'

/-- The text with a carriage return in front of every line feed. -/
def withReturns (cs : List Char) : List Char :=
  cs.flatMap fun c => if c = '\n' then ['\r', '\n'] else [c]

/-- Behind the end of a line a new line begins. -/
theorem lines_append_of_isEnded {cs : List Char} (h : IsEnded cs) (rest : List Char) :
    lines (cs ++ rest) = lines cs ++ lines rest := by
  rcases h with rfl | h
  · rw [lines_nil, List.nil_append, List.nil_append]
  · obtain ⟨before, rfl⟩ := List.getLast?_eq_some_iff.1 h
    rw [List.append_assoc]
    exact lines_append before rest

/-- A text without line feeds is one line, or none if it is empty. -/
theorem lines_of_notMem {line : List Char} (h : '\n' ∉ line) :
    lines line = if line = [] then [] else [line] := by
  have hall : ∀ c ∈ line, (c ≠ '\n' : Bool) := by
    intro c hc
    have hne : c ≠ '\n' := fun he => h (he ▸ hc)
    simpa using hne
  have htake : line.takeWhile (· ≠ '\n') = line := List.takeWhile_eq_self_iff.2 hall
  have hdrop : line.dropWhile (· ≠ '\n') = [] := List.dropWhile_eq_nil_iff.2 hall
  rw [lines]
  split
  · rw [htake]
  · rename_i hd
    rw [hdrop] at hd
    cases hd

/-- Without its carriage return a line has no new characters. -/
theorem mem_of_mem_dropReturn {line : List Char} {c : Char} (h : c ∈ dropReturn line) :
    c ∈ line := by
  unfold dropReturn at h
  split at h
  · exact List.dropLast_subset line h
  · exact h

/-- No line has a line feed in it. -/
theorem notMem_of_mem_lines {cs line : List Char} (h : line ∈ lines cs) : '\n' ∉ line := by
  by_cases hfeed : '\n' ∈ cs
  · obtain ⟨first, after, rfl, hfirst⟩ := List.eq_append_cons_of_mem hfeed
    rw [lines_of_line hfirst] at h
    rcases List.mem_cons.1 h with rfl | h
    · exact fun hc => hfirst (mem_of_mem_dropReturn hc)
    · exact notMem_of_mem_lines h
  · rw [lines_of_notMem hfeed] at h
    split at h
    · cases h
    · rwa [List.mem_singleton.1 h]
termination_by cs.length
decreasing_by
  subst_vars
  simp only [List.length_append, List.length_cons]
  omega

/-- Where no line ends, no carriage return is added. -/
theorem withReturns_of_notMem {cs : List Char} (h : '\n' ∉ cs) : withReturns cs = cs := by
  have hmap : withReturns cs = cs.flatMap fun c => [c] := by
    refine List.flatMap_congr fun c hc => ?_
    have hne : c ≠ '\n' := fun he => h (he ▸ hc)
    rw [if_neg hne]
  rw [hmap, List.flatMap_singleton']

/-- Carriage returns in front of the line feeds belong to the line ends. -/
theorem lines_withReturns {cs : List Char} (h : '\r' ∉ cs) : lines (withReturns cs) = lines cs := by
  by_cases hfeed : '\n' ∈ cs
  · obtain ⟨line, after, rfl, hline⟩ := List.eq_append_cons_of_mem hfeed
    have hreturn : '\r' ∉ line := fun hc => h (List.mem_append_left _ hc)
    have hafter : '\r' ∉ after := fun hc => h (List.mem_append_right _ (List.mem_cons_of_mem _ hc))
    have hsplit : withReturns (line ++ '\n' :: after) =
        line ++ ['\r'] ++ '\n' :: withReturns after := by
      have hline' := withReturns_of_notMem hline
      unfold withReturns at hline' ⊢
      rw [List.flatMap_append, hline', List.flatMap_cons]
      simp
    have hfeed' : '\n' ∉ line ++ ['\r'] := by simpa using hline
    have hdrop : dropReturn (line ++ ['\r']) = dropReturn line := by
      have hlast : line.getLast? ≠ some '\r' := fun he => hreturn (List.mem_of_getLast? he)
      unfold dropReturn
      rw [List.getLast?_concat, if_pos rfl, List.dropLast_concat, if_neg hlast]
    rw [hsplit, lines_of_line hfeed', lines_of_line hline, hdrop, lines_withReturns hafter]
  · rw [withReturns_of_notMem hfeed]
termination_by cs.length
decreasing_by
  subst_vars
  simp only [List.length_append, List.length_cons]
  omega

end Text

namespace Assembly

open Token (Layout)

/-- The error of a line that has some more lines in front of it. -/
def Error.after (e : Error) (n : Nat) : Error := ⟨e.line + n, e.problem⟩

/-- Lines with others among them that hold no statement: they are blank or hold a comment. -/
inductive Padded : List (List Char) → List (List Char) → Prop where
  | nil : Padded [] []
  | line (line : List Char) {ls ls' : List (List Char)} (h : Padded ls ls') :
      Padded (line :: ls) (line :: ls')
  | idle {line : List Char} {ls ls' : List (List Char)} (hline : Layout [] line)
      (h : Padded ls ls') : Padded ls (line :: ls')

theorem Padded.refl (ls : List (List Char)) : Padded ls ls := by
  induction ls with
  | nil => exact .nil
  | cons line ls ih => exact .line line ih

/-- Lines that hold no statement may stand anywhere. -/
theorem Padded.insert (before after : List (List Char)) {idle : List (List Char)}
    (h : ∀ line ∈ idle, Layout [] line) : Padded (before ++ after) (before ++ (idle ++ after)) := by
  induction before with
  | cons line before ih => exact .line line ih
  | nil =>
    induction idle with
    | nil => exact .refl after
    | cons line idle ih =>
      rw [List.forall_mem_cons] at h
      exact .idle h.1 (ih h.2)

/-- A remark is a layout of no tokens. -/
theorem layout_of_remark {remark : List Char} (h : Token.Remark remark) : Layout [] remark := by
  have hnone : ∀ c ∈ [], Text.isBlank c := List.forall_mem_nil _
  exact .intro hnone .nil hnone h (.inr (.inr nofun))

/-- Nothing stands on an empty line. -/
theorem layout_nil : Layout [] [] := layout_of_remark .nothing

/-- Nothing stands in front of a comment. -/
theorem layout_comment (text : List Char) : Layout [] (';' :: text) :=
  layout_of_remark (.comment text)

/-- A line without tokens is no statement. -/
theorem Statement.ofLine_of_layout {line : List Char} (h : Layout [] line) :
    Statement.ofLine line = .ok none := by
  rw [Statement.ofLine, Token.scan_of_layout h (List.forall_mem_nil _)]
  rfl

/-! ### Reading lines -/

variable {ls ls' : List (List Char)} {ss : List Statement} {e : Error}

/-- Reading goes on behind lines that are read. -/
theorem readLines_append (number : Nat) (ls ls' : List (List Char)) :
    readLines number (ls ++ ls') = (readLines number ls).bind fun ss =>
      (readLines (number + ls.length) ls').map (ss ++ ·) := by
  induction ls generalizing number with
  | nil =>
    rw [List.nil_append, List.length_nil, Nat.add_zero]
    cases readLines number ls' <;> rfl
  | cons line ls ih =>
    have hnumber : number + (line :: ls).length = number + 1 + ls.length := by
      rw [List.length_cons]
      omega
    rw [List.cons_append, hnumber]
    simp only [readLines]
    cases hline : Statement.ofLine line with
    | error p => rfl
    | ok s =>
      simp only [ih, bind, Except.bind]
      cases readLines (number + 1) ls with
      | error e => rfl
      | ok ss =>
        cases readLines (number + 1 + ls.length) ls' with
        | error e => rfl
        | ok ss' => exact congrArg Except.ok (List.append_assoc _ _ _).symm

/-- The number of the first line matters for the number in an error only. -/
theorem readLines_add (number n : Nat) (ls : List (List Char)) :
    readLines (number + n) ls = (readLines number ls).mapError (·.after n) := by
  induction ls generalizing number with
  | nil => rfl
  | cons line ls ih =>
    have hnumber : number + n + 1 = number + 1 + n := by omega
    simp only [readLines]
    cases Statement.ofLine line with
    | error p => rfl
    | ok s =>
      rw [hnumber, ih]
      cases readLines (number + 1) ls <;> rfl

/-- An error is that of the first line that has a problem, and has its number. -/
theorem readLines_error_iff {number : Nat} : readLines number ls = .error e ↔
    ∃ before line after, ls = before ++ line :: after ∧ e.line = number + before.length ∧
      (∀ l ∈ before, ∃ s, Statement.ofLine l = .ok s) ∧
      Statement.ofLine line = .error e.problem := by
  induction ls generalizing number with
  | nil =>
    constructor
    · intro he
      cases he
    · rintro ⟨before, line, after, hsplit, -⟩
      exact absurd hsplit.symm (List.append_ne_nil_of_right_ne_nil _ (List.cons_ne_nil _ _))
  | cons first ls ih =>
    rw [readLines]
    cases hfirst : Statement.ofLine first with
    | error p =>
      constructor
      · intro he
        cases he
        exact ⟨[], first, ls, rfl, rfl, List.forall_mem_nil _, hfirst⟩
      · rintro ⟨before, line, after, hsplit, hnumber, hbefore, hline⟩
        cases before with
        | nil =>
          cases hsplit
          cases hfirst.symm.trans hline
          exact congrArg (fun n => Except.error (Error.mk n e.problem)) hnumber.symm
        | cons l before =>
          cases hsplit
          obtain ⟨s, hs⟩ := hbefore first (List.mem_cons_self ..)
          cases hfirst.symm.trans hs
    | ok s =>
      have hrest : (readLines (number + 1) ls >>= fun ss => pure (s.toList ++ ss)) = .error e ↔
          readLines (number + 1) ls = .error e := by
        cases readLines (number + 1) ls with
        | error e' => exact Iff.rfl
        | ok ss => constructor <;> intro he <;> cases he
      refine hrest.trans (ih.trans ?_)
      constructor
      · rintro ⟨before, line, after, rfl, hnumber, hbefore, hline⟩
        refine ⟨first :: before, line, after, rfl, ?_, ?_, hline⟩
        · rw [List.length_cons, hnumber]
          omega
        · exact List.forall_mem_cons.2 ⟨⟨s, hfirst⟩, hbefore⟩
      · rintro ⟨before, line, after, hsplit, hnumber, hbefore, hline⟩
        cases before with
        | nil =>
          cases hsplit
          cases hfirst.symm.trans hline
        | cons l before =>
          cases hsplit
          rw [List.length_cons] at hnumber
          refine ⟨before, line, after, rfl, by omega, ?_, hline⟩
          exact fun l hl => hbefore l (List.mem_cons_of_mem _ hl)

/-- Lines that hold no statement do not change what is read. -/
theorem readLines_of_padded {number : Nat} (hread : readLines number ls = .ok ss)
    (h : Padded ls ls') (number' : Nat) : readLines number' ls' = .ok ss := by
  induction h generalizing number number' ss with
  | nil =>
    cases hread
    rfl
  | line line _ ih =>
    rw [readLines] at hread ⊢
    split at hread
    · cases hread
    · rename_i s hs
      obtain ⟨ss', hss', hread⟩ := exists_of_bind_ok hread
      cases hread
      simp only [ih hss' (number' + 1)]
      rfl
  | idle hline _ ih =>
    rw [readLines, Statement.ofLine_of_layout hline]
    simp only [ih hread (number' + 1)]
    rfl

/-- A line on its own is read as the statement on it. -/
theorem read_of_notMem {line : List Char} (h : '\n' ∉ line) :
    read (String.ofList line) =
      ((Statement.ofLine line).map Option.toList).mapError (Error.mk 1) := by
  rw [read, String.toList_ofList, Text.lines_of_notMem h]
  split
  · rename_i hnil
    subst hnil
    rw [Statement.ofLine_of_layout layout_nil]
    rfl
  · rw [readLines]
    cases Statement.ofLine line with
    | error p => rfl
    | ok s => exact congrArg Except.ok (List.append_nil _)

/-! ### Loading -/

/-- Statements are loaded one part after the other. -/
theorem load_append (h : Heap) (ss ss' : List Statement) :
    load h (ss ++ ss') =
      ((load h ss).1 ++ (load (load h ss).2 ss').1, (load (load h ss).2 ss').2) := by
  induction ss generalizing h with
  | nil => rfl
  | cons s ss ih =>
    simp only [List.cons_append, load, ih]

end Assembly

/-! ### Assembling -/

section Assemble

open Assembly Text

variable {h h' : Heap} {text a b : String} {e : Assembly.Error}

/-- A text fails to assemble exactly if it fails to be read. -/
theorem assemble_error_iff : assemble h text = .error e ↔ Assembly.read text = .error e := by
  unfold assemble
  cases Assembly.read text with
  | error e' =>
    constructor
    · intro he
      exact congrArg Except.error (Except.error.inj he)
    · intro he
      exact congrArg Except.error (Except.error.inj he)
  | ok ss => exact ⟨nofun, nofun⟩

/-- What is assembled behind a text that ends with a line feed. -/
structure AssemblesBehind (a b : String) : Prop where
  /-- What is wrong with the first text is wrong with both. -/
  failed : ∀ {h e}, assemble h a = .error e → assemble h (a ++ b) = .error e
  /-- One block follows the other, and its objects those of the other. -/
  joined : ∀ {h x h₁ y h₂}, assemble h a = .ok (x, h₁) → assemble h₁ b = .ok (y, h₂) →
    assemble h (a ++ b) = .ok (x ++ y, h₂)
  /-- What is wrong with the second text is wrong further down. -/
  later : ∀ {h h' x h₁ e}, assemble h a = .ok (x, h₁) → assemble h' b = .error e →
    assemble h (a ++ b) = .error (e.after (lines a.toList).length)

/-- The statements of two texts are read one after the other, and the lines of the second are
counted on. -/
theorem read_append (ha : IsEnded a.toList) (b : String) :
    Assembly.read (a ++ b) = (Assembly.read a).bind fun ss =>
      ((Assembly.read b).mapError (·.after (lines a.toList).length)).map (ss ++ ·) := by
  unfold Assembly.read
  rw [String.toList_append, lines_append_of_isEnded ha, readLines_append, readLines_add]

/-- What is assembled behind a text does not depend on that text, except for where its constants
are. -/
theorem assemblesBehind (ha : IsEnded a.toList) (b : String) : AssemblesBehind a b where
  failed he := by
    rw [assemble_error_iff] at he ⊢
    rw [read_append ha, he]
    rfl
  joined hx hy := by
    obtain ⟨ss, hss, hx⟩ := assemble_ok_iff.1 hx
    obtain ⟨ss', hss', hy⟩ := assemble_ok_iff.1 hy
    refine assemble_ok_iff.2 ⟨ss ++ ss', ?_, ?_⟩
    · rw [read_append ha, hss, hss']
      rfl
    · rw [load_append, hx]
      dsimp only
      rw [hy]
  later hx he := by
    obtain ⟨ss, hss, -⟩ := assemble_ok_iff.1 hx
    rw [assemble_error_iff] at he ⊢
    rw [read_append ha, hss, he]
    rfl

/-- What is assembled of a text in two heaps: the same error, or blocks that differ in the
identity of objects only. -/
structure AssemblesAlike (h h' : Heap) (text : String) : Prop where
  failed : ∀ {e}, assemble h text = .error e → assemble h' text = .error e
  shown : ∀ {x h₁}, assemble h text = .ok (x, h₁) → ∃ x' h₁', assemble h' text = .ok (x', h₁') ∧
    x'.map (Instruction.shown h₁') = x.map (Instruction.shown h₁)

/-- What is assembled does not depend on the heap, except for where its constants are. -/
theorem assemblesAlike (h h' : Heap) (text : String) : AssemblesAlike h h' text where
  failed he := assemble_error_iff.2 (assemble_error_iff.1 he)
  shown hx := by
    obtain ⟨ss, hss, hx⟩ := assemble_ok_iff.1 hx
    refine ⟨_, _, assemble_ok_iff.2 ⟨ss, hss, rfl⟩, ?_⟩
    have hshown := shown_load h ss (.refl _)
    rw [hx] at hshown
    rw [shown_load h' ss (.refl _), hshown]

/-- The line of an error is the first one that is not assembled on its own, and what is wrong
with the line on its own is what is wrong. -/
inductive FirstProblem (text : String) (e : Assembly.Error) : Prop where
  | intro {before after : List (List Char)} {line : List Char}
      (split : lines text.toList = before ++ line :: after)
      (number : e.line = before.length + 1)
      (assembled : ∀ l ∈ before, ∀ h, ∃ r, assemble h (String.ofList l) = .ok r)
      (problem : ∀ h, assemble h (String.ofList line) = .error ⟨1, e.problem⟩)

/-- A line is accepted exactly if the text that consists of it assembles. -/
theorem ofLine_ok_iff {line : List Char} (hline : '\n' ∉ line) (h : Heap) :
    (∃ s, Statement.ofLine line = .ok s) ↔ ∃ r, assemble h (String.ofList line) = .ok r := by
  unfold assemble
  rw [read_of_notMem hline]
  cases Statement.ofLine line with
  | ok s => exact ⟨fun _ => ⟨_, rfl⟩, fun _ => ⟨s, rfl⟩⟩
  | error p =>
    constructor
    · rintro ⟨s, hs⟩
      cases hs
    · rintro ⟨r, hr⟩
      cases hr

/-- A line is refused exactly if the text that consists of it is, in its first line. -/
theorem ofLine_error_iff {line : List Char} (hline : '\n' ∉ line) (h : Heap) {p : Problem} :
    Statement.ofLine line = .error p ↔ assemble h (String.ofList line) = .error ⟨1, p⟩ := by
  rw [assemble_error_iff, read_of_notMem hline]
  cases Statement.ofLine line with
  | ok s => exact ⟨nofun, nofun⟩
  | error p' =>
    constructor
    · intro he
      cases he
      rfl
    · intro he
      cases he
      rfl

/-- A text fails with the problem in the first line that has one. -/
theorem assemble_error_iff_firstProblem (h : Heap) (text : String) (e : Assembly.Error) :
    assemble h text = .error e ↔ FirstProblem text e := by
  rw [assemble_error_iff]
  unfold Assembly.read
  rw [readLines_error_iff]
  have hfeed {line : List Char} {before after : List (List Char)}
      (hsplit : lines text.toList = before ++ line :: after) :
      (∀ l ∈ before, '\n' ∉ l) ∧ '\n' ∉ line := by
    have hall : ∀ l ∈ before ++ line :: after, '\n' ∉ l := by
      rw [← hsplit]
      exact fun l hl => notMem_of_mem_lines hl
    rw [List.forall_mem_append, List.forall_mem_cons] at hall
    exact ⟨hall.1, hall.2.1⟩
  constructor
  · rintro ⟨before, line, after, hsplit, hnumber, hbefore, hline⟩
    obtain ⟨hfeeds, hfeed⟩ := hfeed hsplit
    refine .intro hsplit (by omega) (fun l hl h' => ?_) fun h' => ?_
    · exact (ofLine_ok_iff (hfeeds l hl) h').1 (hbefore l hl)
    · exact (ofLine_error_iff hfeed h').1 hline
  · rintro ⟨hsplit, hnumber, hbefore, hline⟩
    obtain ⟨hfeeds, hfeed⟩ := hfeed hsplit
    refine ⟨_, _, _, hsplit, by omega, fun l hl => ?_, (ofLine_error_iff hfeed h).2 (hline h)⟩
    exact (ofLine_ok_iff (hfeeds l hl) h).2 (hbefore l hl h)

/-- Texts are assembled line by line. What is assembled behind an ended text is assembled as if
it stood alone, and has its objects and line numbers behind those of the first text; the heap
matters for the identity of objects only. There is an error exactly if a line is not assembled
on its own, and it is that of the first such line, with its number. In a text that is accepted,
lines that are blank or hold a comment only may be put in anywhere, and without carriage returns
in a text, each line feed may get one. -/
theorem assemble_line_by_line :
    (∀ a b : String, IsEnded a.toList → AssemblesBehind a b) ∧
      (∀ (h h' : Heap) (text : String), AssemblesAlike h h' text) ∧
      (∀ (h : Heap) (text : String) (e : Assembly.Error),
        assemble h text = .error e ↔ FirstProblem text e) ∧
      (∀ (h : Heap) (text text' : String) (r : Block × Heap), assemble h text = .ok r →
        Padded (lines text.toList) (lines text'.toList) → assemble h text' = .ok r) ∧
      ∀ (h : Heap) (text : String), '\r' ∉ text.toList →
        assemble h (String.ofList (withReturns text.toList)) = assemble h text := by
  refine ⟨fun a b ha => assemblesBehind ha b, assemblesAlike, assemble_error_iff_firstProblem,
    ?_, ?_⟩
  · intro h text text' r accepted hpadded
    obtain ⟨ss, hss, hload⟩ := assemble_ok_iff.1 accepted
    exact assemble_ok_iff.2 ⟨ss, readLines_of_padded hss hpadded 1, hload⟩
  · intro h text hreturn
    have hread : Assembly.read (String.ofList (withReturns text.toList)) = Assembly.read text := by
      unfold Assembly.read
      rw [String.toList_ofList, lines_withReturns hreturn]
    rw [assemble, hread, assemble]

/-- A text with a constant and one with a problem, each behind a line, a comment and an empty
line put in, and line feeds that get carriage returns. -/
theorem assemble_line_by_line_problem :
    let a := "iconst_1\n"
    let b := "ldc \"x\"\n"
    let c := "nop ; \"\n"
    let padded := "\n; one\nldc \"x\"\n"
    let one : Instruction Value := ⟨.constant (.int 2), .none⟩
    let two : Instruction Value := ⟨.ldc, .constant (.reference (.to 0))⟩
    let heap : Heap := ⟨#[.string "x"]⟩
    let e : Assembly.Error := ⟨2, .unknownOpcode "nop"⟩
    IsEnded a.toList ∧ assemble .empty a = .ok ([one], .empty) ∧
      assemble .empty b = .ok ([two], heap) ∧ assemble .empty (a ++ b) = .ok ([one, two], heap) ∧
      assemble .empty c = .error ⟨1, .unknownOpcode "nop"⟩ ∧
      assemble .empty (a ++ c) = .error e ∧ FirstProblem (a ++ c) e ∧
      Padded (lines b.toList) (lines padded.toList) ∧ assemble .empty padded = .ok ([two], heap) ∧
      '\r' ∉ (a ++ c).toList ∧
      assemble .empty (String.ofList (withReturns (a ++ c).toList)) = .error e := by
  intro a b c padded one two heap e
  have hended : IsEnded a.toList := .inr (by decide)
  have hreada : Assembly.read a = .ok [⟨.constant (.int 2), .none⟩] := by decide +kernel
  have hreadb : Assembly.read b = .ok [⟨.ldc, .constant (.string "x")⟩] := by decide +kernel
  have hreadc : Assembly.read c = .error ⟨1, .unknownOpcode "nop"⟩ := by decide +kernel
  have ha : assemble .empty a = .ok ([one], .empty) := assemble_ok_iff.2 ⟨_, hreada, rfl⟩
  have hb : assemble .empty b = .ok ([two], heap) := assemble_ok_iff.2 ⟨_, hreadb, rfl⟩
  have hc : assemble .empty c = .error ⟨1, .unknownOpcode "nop"⟩ := assemble_error_iff.2 hreadc
  have hcomment : Token.Layout [] "; one".toList := layout_comment " one".toList
  have hlines : lines b.toList = [] ++ ["ldc \"x\"".toList] ∧
      lines padded.toList = [] ++ ([[], "; one".toList] ++ ["ldc \"x\"".toList]) ∧
      (lines a.toList).length = 1 := by decide +kernel
  have hpadded : Padded (lines b.toList) (lines padded.toList) := by
    rw [hlines.1, hlines.2.1]
    exact .insert [] _ (List.forall_mem_cons.2 ⟨layout_nil, List.forall_mem_singleton.2 hcomment⟩)
  have hreturn : '\r' ∉ (a ++ c).toList := by decide
  obtain ⟨hbehind, -, hproblem, hidle, hreturns⟩ := assemble_line_by_line
  have hac : assemble .empty (a ++ c) = .error e := by
    have hlater := (hbehind a c hended).later ha hc
    rwa [hlines.2.2] at hlater
  exact ⟨hended, ha, hb, (hbehind a b hended).joined ha hb, hc, hac, (hproblem _ _ _).1 hac,
    hpadded, hidle _ _ _ _ hb hpadded, hreturn, (hreturns _ _ hreturn).trans hac⟩

end Assemble

end StackMachine
