import StackMachine.Assembly.Problem
import StackMachine.Text.Blank
import StackMachine.Text.Quoted

/-!
# Tokens

A line is a sequence of words and quoted texts. Blanks separate words; a quote
begins a quoted text also in the middle of a word. A semicolon at the start of a
token begins a comment, which extends to the end of the line.
-/

namespace StackMachine.Assembly

/-- A token of a line. -/
inductive Token where
  /-- A run of characters other than blanks and quotes. -/
  | word (s : String)
  /-- A text that stood between quotes. -/
  | quoted (s : String)
deriving DecidableEq, Repr

namespace Token

/-- The text of a token as it is shown in messages; quoted texts keep their quotes. -/
def text : Token → String
  | word s => s
  | quoted s => String.ofList (Text.Quoted.write s.toList)

/-- A character that a word may hold. -/
def isWordChar (c : Char) : Bool := !Text.isBlank c && c ≠ '"'

/-- The problem that a malformed quoted text is. -/
def quotedProblem : Text.Quoted.Error → Problem
  | .unterminated => .unterminatedString
  | .badEscape t => .invalidLiteral (String.ofList t)

/-- The tokens of a line. -/
def scan (cs : List Char) : Except Problem (List Token) :=
  match cs with
  | [] => .ok []
  | c :: rest =>
    if Text.isBlank c then scan rest
    else if c = ';' then .ok []
    else if c = '"' then
      match _h : Text.Quoted.read rest with
      | .error e => .error (quotedProblem e)
      | .ok (s, after) => do
        let tokens ← scan after
        return .quoted (String.ofList s) :: tokens
    else do
      let tokens ← scan (rest.dropWhile isWordChar)
      return .word (String.ofList (c :: rest.takeWhile isWordChar)) :: tokens
termination_by cs.length
decreasing_by
  · simp
  · have := Text.Quoted.length_read _h
    simp only [List.length_cons]
    omega
  · have := (List.dropWhile_suffix isWordChar (l := rest)).length_le
    simp only [List.length_cons]
    omega

end Token

end StackMachine.Assembly
