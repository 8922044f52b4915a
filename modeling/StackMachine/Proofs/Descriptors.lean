import Mathlib.Data.List.TakeWhile
import StackMachine.Instruction

/-!
# The grammar of descriptors

Field descriptors and method descriptors are given as inductive relations between a
text and the kinds that it describes. Reading takes a field off the front of a text
exactly where the grammar has one, so the loop over the parameters accepts exactly the
lists of fields, and each round of it makes the rest of the text shorter. What is
printed for kinds is in the grammar, and so it is read back.
-/

namespace StackMachine.Descriptor

/-- The field descriptors, with the kinds of the values that they describe. -/
inductive Field : Kind → List Char → Prop where
  /-- Ints, and the narrow integers and booleans that are carried as ints. -/
  | int {c : Char} (letter : c ∈ ['I', 'B', 'S', 'C', 'Z']) : Field .int [c]
  | long : Field .long ['J']
  | float : Field .float ['F']
  | double : Field .double ['D']
  /-- A class name may have any character in it but the semicolon, which ends it. -/
  | object {name : List Char} (closed : ';' ∉ name) : Field .reference ('L' :: (name ++ [';']))
  | array {k : Kind} {cs : List Char} (element : Field k cs) : Field .reference ('[' :: cs)

/-- The lists of field descriptors, written one after another. -/
inductive Fields : List Kind → List Char → Prop where
  | nil : Fields [] []
  | cons {k : Kind} {ks : List Kind} {cs ds : List Char} (head : Field k cs)
      (tail : Fields ks ds) : Fields (k :: ks) (cs ++ ds)

/-- The method descriptors, with the kinds of the parameters and of the result. -/
inductive Method : List Kind → Option Kind → List Char → Prop where
  | void {params : List Kind} {cs : List Char} (fields : Fields params cs) :
      Method params none ('(' :: (cs ++ [')', 'V']))
  | value {params : List Kind} {k : Kind} {cs ds : List Char} (fields : Fields params cs)
      (result : Field k ds) : Method params (some k) ('(' :: (cs ++ ')' :: ds))

/-! ### Fields -/

/-- The text behind a class name begins with the semicolon that ends it. -/
theorem dropWhile_name {name : List Char} (closed : ';' ∉ name) (rest : List Char) :
    (name ++ ';' :: rest).dropWhile (· ≠ ';') = ';' :: rest := by
  have hname : ∀ c ∈ name, decide (c ≠ ';') = true := fun c hc =>
    decide_eq_true fun he => closed (he ▸ hc)
  rw [List.dropWhile_append_of_pos hname]
  rfl

/-- A letter describes a kind of its own unless more has to follow it. -/
theorem field_of_letter {c : Char} {k : Kind} (hbracket : c ≠ '[') (hclass : c ≠ 'L')
    (h : Kind.ofLetter? c = some k) : Field k [c] := by
  unfold Kind.ofLetter? at h
  split at h <;> cases h
  case h_1 | h_2 | h_3 | h_4 | h_5 => exact .int (by decide)
  case h_6 => exact .long
  case h_7 => exact .float
  case h_8 => exact .double
  case h_9 => exact absurd rfl hclass
  case h_10 => exact absurd rfl hbracket

/-- A field is taken off a text, whatever follows it. -/
theorem takeField?_of_field {k : Kind} {cs : List Char} (h : Field k cs) (rest : List Char) :
    takeField? (cs ++ rest) = some (k, rest) := by
  induction h with
  | int letter =>
    simp only [List.mem_cons, List.not_mem_nil, or_false] at letter
    rcases letter with rfl | rfl | rfl | rfl | rfl <;> rfl
  | long | float | double => rfl
  | @object name closed =>
    have hdrop := dropWhile_name closed rest
    rw [List.cons_append, List.append_assoc, List.singleton_append, takeField?, hdrop]
  | array element ih =>
    rw [List.cons_append, takeField?, ih]
    rfl

/-- What is taken off a text is a field. -/
theorem exists_field_of_takeField? {cs rest : List Char} {k : Kind}
    (h : takeField? cs = some (k, rest)) : ∃ front, cs = front ++ rest ∧ Field k front := by
  fun_induction takeField? cs generalizing k rest with
  | case1 => cases h
  | case2 cs ih =>
    obtain ⟨⟨k', rest'⟩, htake, he⟩ := Option.map_eq_some_iff.1 h
    cases he
    obtain ⟨front, rfl, hfield⟩ := ih htake
    exact ⟨'[' :: front, rfl, .array hfield⟩
  | case3 cs c rest' hdrop =>
    cases h
    have hsplit := List.takeWhile_append_dropWhile (p := (· ≠ ';')) (l := cs)
    have hname : ';' ∉ cs.takeWhile (· ≠ ';') := fun hmem => by
      simpa using List.mem_takeWhile_imp hmem
    obtain rfl : c = ';' := by
      have hhead := List.head?_dropWhile_not (· ≠ ';') cs
      rw [hdrop] at hhead
      simpa using hhead
    rw [hdrop] at hsplit
    refine ⟨'L' :: (cs.takeWhile (· ≠ ';') ++ [';']), ?_, .object hname⟩
    rw [List.cons_append, List.append_assoc, List.singleton_append, hsplit]
  | case4 => cases h
  | case5 c cs hbracket hclass =>
    obtain ⟨k', hletter, he⟩ := Option.map_eq_some_iff.1 h
    cases he
    exact ⟨[c], rfl, field_of_letter (fun he => hbracket he) (fun he => hclass he) hletter⟩

/-- A field is taken exactly if the text begins with one. -/
theorem takeField?_eq_some_iff {cs rest : List Char} {k : Kind} :
    takeField? cs = some (k, rest) ↔ ∃ front, cs = front ++ rest ∧ Field k front := by
  constructor
  · exact exists_field_of_takeField?
  · rintro ⟨front, rfl, h⟩
    exact takeField?_of_field h rest

/-- The texts that are read as a kind are its field descriptors. -/
theorem readField?_eq_some_iff {cs : List Char} {k : Kind} :
    readField? cs = some k ↔ Field k cs := by
  constructor
  · intro h
    unfold readField? at h
    split at h
    · rename_i htake
      cases h
      obtain ⟨front, rfl, hfield⟩ := takeField?_eq_some_iff.1 htake
      rwa [List.append_nil]
    · cases h
  · intro h
    have htake := takeField?_of_field h []
    rw [List.append_nil] at htake
    rw [readField?, htake]

/-! ### Parameters -/

/-- A field does not begin with the end of a parameter list. -/
theorem Field.exists_eq_cons {k : Kind} {cs : List Char} (h : Field k cs) :
    ∃ c ds, cs = c :: ds ∧ c ≠ ')' := by
  cases h with
  | int letter => exact ⟨_, _, rfl, fun he => absurd (he ▸ letter) (by decide)⟩
  | long | float | double | object | array => exact ⟨_, _, rfl, by decide⟩

/-- In front of the end of a parameter list stands no field. -/
theorem takeParams?_end (rest : List Char) : takeParams? (')' :: rest) = some ([], rest) := by
  rw [takeParams?]

/-- A round of the loop over the parameters. -/
theorem takeParams?_field {cs rest : List Char} {k : Kind} (hend : ∀ ds, cs ≠ ')' :: ds)
    (h : takeField? cs = some (k, rest)) :
    takeParams? cs = (takeParams? rest).map fun r => (k :: r.1, r.2) := by
  rw [takeParams?.eq_def]
  split
  · exact absurd rfl (hend _)
  · split
    · rename_i hnone
      rw [h] at hnone
      cases hnone
    · rename_i hsome
      rw [h] at hsome
      cases hsome
      rfl

/-- Parameters are taken up to the closing parenthesis. -/
theorem takeParams?_of_fields {ks : List Kind} {cs : List Char} (h : Fields ks cs)
    (rest : List Char) : takeParams? (cs ++ ')' :: rest) = some (ks, rest) := by
  induction h with
  | nil => exact takeParams?_end rest
  | @cons k ks cs ds head tail ih =>
    have hend : ∀ es, cs ++ ds ++ ')' :: rest ≠ ')' :: es := by
      obtain ⟨c, cs', rfl, hc⟩ := head.exists_eq_cons
      intro es he
      exact hc (List.cons.inj he).1
    have htake := takeField?_of_field head (ds ++ ')' :: rest)
    rw [← List.append_assoc] at htake
    rw [takeParams?_field hend htake, ih]
    rfl

/-- What the loop over the parameters has read is a list of fields. -/
theorem exists_fields_of_takeParams? {cs rest : List Char} {ks : List Kind}
    (h : takeParams? cs = some (ks, rest)) :
    ∃ front, cs = front ++ ')' :: rest ∧ Fields ks front := by
  fun_induction takeParams? cs generalizing ks rest with
  | case1 =>
    cases h
    exact ⟨[], rfl, .nil⟩
  | case2 => cases h
  | case3 cs hend k rest' htake ih =>
    obtain ⟨⟨ks', rest''⟩, hparams, he⟩ := Option.map_eq_some_iff.1 h
    cases he
    obtain ⟨front, rfl, hfield⟩ := exists_field_of_takeField? htake
    obtain ⟨front', rfl, hfields⟩ := ih hparams
    exact ⟨front ++ front', (List.append_assoc ..).symm, .cons hfield hfields⟩

/-- They are taken exactly if the text begins with fields and a parenthesis. -/
theorem takeParams?_eq_some_iff {cs rest : List Char} {ks : List Kind} :
    takeParams? cs = some (ks, rest) ↔ ∃ front, cs = front ++ ')' :: rest ∧ Fields ks front := by
  constructor
  · exact exists_fields_of_takeParams?
  · rintro ⟨front, rfl, h⟩
    exact takeParams?_of_fields h rest

/-- Each round of the loop makes the rest of the text shorter, so there are no endless rounds. -/
theorem wellFounded_takeField? :
    WellFounded fun rest cs : List Char => ∃ k, takeField? cs = some (k, rest) :=
  Subrelation.wf (fun ⟨_, h⟩ => length_takeField? h) (measure List.length).wf

/-! ### Methods -/

/-- No field begins with the letter of a missing result. -/
theorem not_field_void (k : Kind) : ¬ Field k ['V'] := by
  intro h
  have htake := takeField?_of_field h []
  cases htake

/-- The descriptor of a method is read as its parameters and its result. -/
theorem readMethod?_of_method {params : List Kind} {result : Option Kind} {cs : List Char}
    (h : Method params result cs) : readMethod? cs = some (params, result) := by
  cases h with
  | void fields =>
    rw [readMethod?, takeParams?_of_fields fields]
    rfl
  | value fields field =>
    rw [readMethod?, takeParams?_of_fields fields]
    have hread := readField?_eq_some_iff.2 field
    split
    · rename_i he
      cases he
      exact absurd field (not_field_void _)
    · rename_i he
      cases he
      rw [hread]
      rfl
    · rename_i he
      cases he

/-- What is read as a method is a method descriptor. -/
theorem method_of_readMethod? {params : List Kind} {result : Option Kind} {cs : List Char}
    (h : readMethod? cs = some (params, result)) : Method params result cs := by
  unfold readMethod? at h
  split at h
  · split at h
    · rename_i hparams
      cases h
      obtain ⟨front, rfl, hfields⟩ := takeParams?_eq_some_iff.1 hparams
      exact .void hfields
    · rename_i hparams
      obtain ⟨k, hresult, he⟩ := Option.map_eq_some_iff.1 h
      cases he
      obtain ⟨front, rfl, hfields⟩ := takeParams?_eq_some_iff.1 hparams
      exact .value hfields (readField?_eq_some_iff.1 hresult)
    · cases h
  · cases h

/-- A text is read as such exactly if the grammar derives it. -/
theorem readMethod?_eq_some_iff {params : List Kind} {result : Option Kind} {cs : List Char} :
    readMethod? cs = some (params, result) ↔ Method params result cs :=
  ⟨method_of_readMethod?, readMethod?_of_method⟩

/-! ### Printing -/

/-- The descriptor of a kind is one of its field descriptors. -/
theorem field_ofKind (k : Kind) : Field k (ofKind k).toList := by
  cases k with
  | int => exact .int (by decide)
  | long => exact .long
  | float => exact .float
  | double => exact .double
  | reference =>
    have hname : ';' ∉ "java/lang/Object".toList := by decide
    exact .object hname

/-- The descriptors of kinds, one after the other, are fields. -/
theorem fields_ofKinds (params : List Kind) :
    Fields params (String.join (params.map ofKind)).toList := by
  rw [String.toList_join, List.flatMap_map]
  induction params with
  | nil => exact .nil
  | cons k params ih => exact .cons (field_ofKind k) ih

/-- What is printed for a method is a method descriptor. -/
theorem method_ofMethod (params : List Kind) (result : Option Kind) :
    Method params result (ofMethod params result).toList := by
  have htext (r : String) :
      ("(" ++ String.join (params.map ofKind) ++ ")" ++ r).toList =
        '(' :: ((String.join (params.map ofKind)).toList ++ ')' :: r.toList) := by
    simp only [String.toList_append, List.append_assoc]
    rfl
  have hfields := fields_ofKinds params
  cases result with
  | none =>
    have hmethod := Method.void hfields
    rwa [← show "V".toList = ['V'] from rfl, ← htext] at hmethod
  | some k =>
    have hmethod := Method.value hfields (field_ofKind k)
    rwa [← htext] at hmethod

/-- The descriptor of a kind is read as that kind. -/
theorem readField?_ofKind (k : Kind) : readField? (ofKind k).toList = some k :=
  readField?_eq_some_iff.2 (field_ofKind k)

/-- The descriptor of a method is read as its parameters and its result. -/
theorem readMethod?_ofMethod (params : List Kind) (result : Option Kind) :
    readMethod? (ofMethod params result).toList = some (params, result) :=
  readMethod?_of_method (method_ofMethod params result)

/-! ### Reading by the grammar -/

/-- Descriptors are read by their grammar. The texts that are read as the parameters and
the result of a method are the method descriptors with these kinds, and the texts that are
read as a kind are its field descriptors. The descriptor of a method is read as the method's
own parameters and result, so reading the canonical form of what was read changes nothing.
The loop over the parameters ends on every text, since no text allows endless rounds. -/
theorem descriptors_read_by_grammar :
    (∀ (s : String) params result,
        readMethod? s.toList = some (params, result) ↔ Method params result s.toList) ∧
      (∀ (s : String) k, readField? s.toList = some k ↔ Field k s.toList) ∧
      (∀ m : MethodRef, readMethod? m.descriptor.toList = some (m.params, m.result)) ∧
      (∀ (s : String) params result, readMethod? s.toList = some (params, result) →
        readMethod? (ofMethod params result).toList = readMethod? s.toList) ∧
      WellFounded fun rest cs : List Char => ∃ k, takeField? cs = some (k, rest) := by
  refine ⟨fun s params result => readMethod?_eq_some_iff, fun s k => readField?_eq_some_iff,
    fun m => readMethod?_ofMethod m.params m.result, fun s params result h => ?_,
    wellFounded_takeField?⟩
  rw [readMethod?_ofMethod, h]

end StackMachine.Descriptor
