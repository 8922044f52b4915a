/-!
# Lines

A text as the list of its lines. A line ends at a line feed; a carriage return
just before the line feed belongs to the line end. What follows the last line
feed is a line if it is not empty, and keeps its carriage returns.
-/

namespace StackMachine.Text

/-- A line that was ended by a line feed, without the carriage return at its end. -/
def dropReturn (line : List Char) : List Char :=
  if line.getLast? = some '\r' then line.dropLast else line

/-- The lines of a text. -/
def lines (cs : List Char) : List (List Char) :=
  let line := cs.takeWhile (· ≠ '\n')
  match _h : cs.dropWhile (· ≠ '\n') with
  | [] => if line = [] then [] else [line]
  | _ :: rest => dropReturn line :: lines rest
termination_by cs.length
decreasing_by
  have := (List.dropWhile_suffix (· ≠ '\n') (l := cs)).length_le
  simp only [_h, List.length_cons] at this
  omega

end StackMachine.Text
