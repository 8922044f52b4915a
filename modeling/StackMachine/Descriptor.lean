import StackMachine.Kind

/-!
# Descriptors

The text form of the kinds of fields, parameters and results. A field descriptor
is a letter, a class name between `L` and `;`, or brackets in front of a
descriptor. A method descriptor lists the parameters between parentheses and ends
with the descriptor of the result, or with `V` if there is none.
-/

namespace StackMachine.Descriptor

/-- The canonical field descriptor of a kind. -/
def ofKind : Kind → String
  | .int => "I"
  | .long => "J"
  | .float => "F"
  | .double => "D"
  | .reference => "Ljava/lang/Object;"

/-- The kind of the field descriptor at the front of a text, and what follows it. A
class name ends at the first semicolon. -/
def takeField? : List Char → Option (Kind × List Char)
  | [] => none
  | '[' :: cs => (takeField? cs).map fun r => (.reference, r.2)
  | 'L' :: cs =>
    match cs.dropWhile (· ≠ ';') with
    | _ :: rest => some (.reference, rest)
    | [] => none
  | c :: cs => (Kind.ofLetter? c).map fun k => (k, cs)

/-- The kind of a field descriptor; the whole text must be one. -/
def readField? (cs : List Char) : Option Kind :=
  match takeField? cs with
  | some (k, []) => some k
  | _ => none

/-- Taking a field leaves less to read. -/
theorem length_takeField? {cs rest : List Char} {k : Kind}
    (h : takeField? cs = some (k, rest)) : rest.length < cs.length := by
  fun_induction takeField? cs generalizing k rest with
  | case1 => simp at h
  | case2 cs ih =>
    obtain ⟨⟨k', r⟩, hr, he⟩ := Option.map_eq_some_iff.1 h
    have := ih hr
    simp only [Prod.mk.injEq] at he
    simp only [List.length_cons, ← he.2]
    omega
  | case3 cs d r hd =>
    have hs := (List.dropWhile_suffix (· ≠ ';') (l := cs)).length_le
    simp only [Option.some.injEq, Prod.mk.injEq] at h
    simp only [hd, List.length_cons] at hs
    simp only [List.length_cons, ← h.2]
    omega
  | case4 => simp at h
  | case5 c cs =>
    obtain ⟨k', -, he⟩ := Option.map_eq_some_iff.1 h
    simp only [Prod.mk.injEq] at he
    simp [← he.2]

/-- The kinds of the parameters up to a closing parenthesis, and what follows it. -/
def takeParams? (cs : List Char) : Option (List Kind × List Char) :=
  match cs with
  | ')' :: rest => some ([], rest)
  | cs =>
    match _h : takeField? cs with
    | none => none
    | some (k, rest) => (takeParams? rest).map fun r => (k :: r.1, r.2)
termination_by cs.length
decreasing_by exact length_takeField? _h

/-- The kinds of the parameters and of the result of a method descriptor; the whole
text must be one. -/
def readMethod? : List Char → Option (List Kind × Option Kind)
  | '(' :: cs =>
    match takeParams? cs with
    | some (params, ['V']) => some (params, none)
    | some (params, result) => (readField? result).map fun k => (params, some k)
    | none => none
  | _ => none

/-- The canonical method descriptor. -/
def ofMethod (params : List Kind) (result : Option Kind) : String :=
  "(" ++ String.join (params.map ofKind) ++ ")" ++
    match result with
    | some k => ofKind k
    | none => "V"

end StackMachine.Descriptor
