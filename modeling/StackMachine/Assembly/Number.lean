import StackMachine.Assembly.Problem
import StackMachine.Literal

/-!
# Numbers in assembly text

A number word is an int, or with a suffix a long, a float or a double. A word with
a point or an exponent, `NaN` and the infinities are doubles also without a suffix.
Hexadecimal words give the bits of an int or a long; a minus sign negates them with
wrap-around. Decimal integers have to be in range.
-/

namespace StackMachine.Assembly

/-- The word looks like a number: after any signs stands a digit, a point, or the
first letter of `NaN` or `Infinity`. -/
def looksNumeric (cs : List Char) : Bool :=
  match cs.dropWhile fun c => c = '-' || c = '+' with
  | c :: _ => c.isDigit || c = '.' || c = 'N' || c = 'I'
  | [] => false

/-- What precedes the last character of a word, if that is one of two letters. -/
def stripSuffix? (upper lower : Char) (cs : List Char) : Option (List Char) :=
  match cs.getLast? with
  | some c => if c = upper ∨ c = lower then some cs.dropLast else none
  | none => none

/-- The int of a decimal number in range. -/
def intLiteral? (cs : List Char) : Option Literal :=
  (Numeral.readInt? cs).bind fun n =>
    if Int32.minValue.toInt ≤ n ∧ n ≤ Int32.maxValue.toInt then some (.int (.ofInt n))
    else none

/-- The long of a decimal number in range. -/
def longLiteral? (cs : List Char) : Option Literal :=
  (Numeral.readInt? cs).bind fun n =>
    if Int64.minValue.toInt ≤ n ∧ n ≤ Int64.maxValue.toInt then some (.long (.ofInt n))
    else none

/-- The int or long of a hexadecimal number, whose sign and mark have been read. -/
def hexLiteral? (negative : Bool) (cs : List Char) : Option Literal :=
  match stripSuffix? 'L' 'l' cs with
  | some digits =>
    (Numeral.readHex? digits).bind fun n =>
      if n < UInt64.size then
        let bits := Int64.ofNat n
        some (.long (if negative then -bits else bits))
      else none
  | none =>
    (Numeral.readHex? cs).bind fun n =>
      if n < UInt32.size then
        let bits := Int32.ofNat n
        some (.int (if negative then -bits else bits))
      else none

/-- The binary number of a word: a special one, or that nearest to a decimal. -/
def readBinary? {f : Format} (cs : List Char) : Option (Binary f) :=
  if cs = "NaN".toList then some .nan
  else if cs = "Infinity".toList ∨ cs = "+Infinity".toList then some (.infinity false)
  else if cs = "-Infinity".toList then some (.infinity true)
  else (Decimal.read? cs).map .ofDecimal

/-- The word is a double without a suffix, judged by its characters after the sign. -/
def isPlainDouble (unsigned : List Char) : Bool :=
  unsigned.any (fun c => c = '.' || c = 'e' || c = 'E') || unsigned = "NaN".toList ||
    unsigned = "Infinity".toList

/-- The literal of a word that looks like a number. -/
def numberLiteral? (cs : List Char) : Option Literal :=
  let (negative, unsigned) := Numeral.splitSign cs
  match unsigned with
  | '0' :: 'x' :: hex => hexLiteral? negative hex
  | '0' :: 'X' :: hex => hexLiteral? negative hex
  | _ =>
    match stripSuffix? 'L' 'l' cs with
    | some body => longLiteral? body
    | none =>
      match stripSuffix? 'F' 'f' cs with
      | some body => (readBinary? body).map .float
      | none =>
        match stripSuffix? 'D' 'd' cs with
        | some body => (readBinary? body).map .double
        | none =>
          if isPlainDouble unsigned then (readBinary? cs).map .double else intLiteral? cs

/-- Read a number word. -/
def readNumber (word : String) : Except Problem Literal :=
  if looksNumeric word.toList then
    match numberLiteral? word.toList with
    | some l => .ok l
    | none => .error (.invalidNumber word)
  else .error (.invalidLiteral word)

end StackMachine.Assembly
