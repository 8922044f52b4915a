import StackMachine.Text.Numeral
import StackMachine.Text.Unshown

/-!
# Quoted text

A text between double quotes on one line. Writing escapes the quote, the
backslash, line breaks, tabs, the null character and every character that is not
shown as itself; reading understands those escapes, an escaped apostrophe, and
the hexadecimal escape of any scalar value.
-/

namespace StackMachine.Text.Quoted

/-- The written form of one character. -/
def escape (c : Char) : List Char :=
  if c = '"' then ['\\', '"']
  else if c = '\\' then ['\\', '\\']
  else if c = '\n' then ['\\', 'n']
  else if c = '\r' then ['\\', 'r']
  else if c = '\t' then ['\\', 't']
  else if c = '\x00' then ['\\', '0']
  else if isUnshown c then ['\\', 'u', '\x7b'] ++ Numeral.hexOfNat c.toNat ++ ['\x7d']
  else [c]

/-- The written form of a text, its quotes included. -/
def write (s : List Char) : List Char := '"' :: s.flatMap escape ++ ['"']

/-- Why a text cannot be read. -/
inductive Error where
  /-- The line ends before the closing quote. -/
  | unterminated
  /-- A backslash begins no known escape; the offending characters are kept. -/
  | badEscape (text : List Char)
deriving DecidableEq, Repr

/-- The character whose scalar value is written in hexadecimal. -/
def scalar? (hex : List Char) : Option Char :=
  match Numeral.readHex? hex with
  | some n => if n.isValidChar then some (Char.ofNat n) else none
  | none => none

/-- Read the hexadecimal escape whose letter has been read. -/
def readScalar : List Char → Except Error (Char × List Char)
  | '\x7b' :: cs =>
    let hex := cs.takeWhile (· ≠ '\x7d')
    match cs.dropWhile (· ≠ '\x7d') with
    | [] => .error .unterminated
    | _ :: rest =>
      match scalar? hex with
      | some c => .ok (c, rest)
      | none => .error (.badEscape (['\\', 'u', '\x7b'] ++ hex ++ ['\x7d']))
  | _ => .error (.badEscape ['\\', 'u'])

/-- Read the escape whose backslash has been read. -/
def readEscape : List Char → Except Error (Char × List Char)
  | [] => .error .unterminated
  | 'n' :: cs => .ok ('\n', cs)
  | 't' :: cs => .ok ('\t', cs)
  | 'r' :: cs => .ok ('\r', cs)
  | '0' :: cs => .ok ('\x00', cs)
  | '\\' :: cs => .ok ('\\', cs)
  | '"' :: cs => .ok ('"', cs)
  | '\x27' :: cs => .ok ('\x27', cs)
  | 'u' :: cs => readScalar cs
  | c :: _ => .error (.badEscape ['\\', c])

/-- Reading a code leaves less to read. -/
theorem length_readScalar {cs rest : List Char} {c : Char} (h : readScalar cs = .ok (c, rest)) :
    rest.length < cs.length := by
  unfold readScalar at h
  split at h
  · rename_i cs
    dsimp only at h
    split at h
    · simp at h
    · rename_i d rest' hd
      have hs := (List.dropWhile_suffix (· ≠ '\x7d') (l := cs)).length_le
      split at h
      · simp only [Except.ok.injEq, Prod.mk.injEq] at h
        simp only [hd, List.length_cons] at hs
        simp only [List.length_cons, ← h.2]
        omega
      · simp at h
  · simp at h

theorem length_readEscape {cs rest : List Char} {c : Char} (h : readEscape cs = .ok (c, rest)) :
    rest.length < cs.length := by
  unfold readEscape at h
  split at h <;> simp_all
  have := length_readScalar h
  omega

/-- Read a text whose opening quote has been read: its characters, and what
follows the closing quote. -/
def read (cs : List Char) : Except Error (List Char × List Char) :=
  match cs with
  | [] => .error .unterminated
  | '"' :: rest => .ok ([], rest)
  | '\\' :: cs =>
    match _h : readEscape cs with
    | .error e => .error e
    | .ok (c, rest) => do
      let (text, rest) ← read rest
      return (c :: text, rest)
  | c :: cs => do
    let (text, rest) ← read cs
    return (c :: text, rest)
termination_by cs.length
decreasing_by
  · have := length_readEscape _h
    simp only [List.length_cons]
    omega
  · simp

theorem length_read {cs text rest : List Char} (h : read cs = .ok (text, rest)) :
    rest.length < cs.length := by
  fun_induction read cs generalizing text rest with
  | case1 => simp at h
  | case2 => simp_all
  | case3 => simp at h
  | case4 cs c after he ih =>
    cases hr : read after with
    | error e => simp [hr, bind, Except.bind] at h
    | ok r =>
      have := ih hr
      have := length_readEscape he
      simp only [hr, bind, Except.bind, pure, Except.pure, Except.ok.injEq, Prod.mk.injEq] at h
      simp only [List.length_cons, ← h.2]
      omega
  | case5 c cs _ _ ih =>
    cases hr : read cs with
    | error e => simp [hr, bind, Except.bind] at h
    | ok r =>
      have := ih hr
      simp only [hr, bind, Except.bind, pure, Except.pure, Except.ok.injEq, Prod.mk.injEq] at h
      simp only [List.length_cons, ← h.2]
      omega

end StackMachine.Text.Quoted
