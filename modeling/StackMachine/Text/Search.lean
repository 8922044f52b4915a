/-!
# Searching text
-/

namespace StackMachine.Text

/-- The text has the pattern somewhere in it. -/
def hasInfix (pattern : List Char) : List Char → Bool
  | [] => pattern = []
  | c :: cs => pattern.isPrefixOf (c :: cs) || hasInfix pattern cs

/-- The search finds a pattern exactly if it is there. -/
theorem hasInfix_iff {pattern cs : List Char} :
    hasInfix pattern cs = true ↔ pattern <:+: cs := by
  induction cs with
  | nil => simp [hasInfix]
  | cons c cs ih => simp [hasInfix, ih, List.infix_cons_iff]

/-- The string has the pattern somewhere in it. -/
def contains (s pattern : String) : Bool := hasInfix pattern.toList s.toList

end StackMachine.Text
