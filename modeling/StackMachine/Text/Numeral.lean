/-!
# Numerals

Whole numbers as text. Writing gives the shortest decimal digits, with a minus
sign in front of negative numbers; reading accepts leading zeros and a plus sign
too. Hexadecimal digits are read in either case.
-/

namespace StackMachine.Numeral

/-- The decimal digits of a natural number. -/
def ofNat (n : Nat) : List Char := Nat.toDigits 10 n

/-- The decimal digits of an integer, after a minus sign if it is negative. -/
def ofInt (n : Int) : List Char := if n < 0 then '-' :: ofNat n.natAbs else ofNat n.natAbs

/-- The decimal digits of an integer, after its sign. -/
def ofIntSigned (n : Int) : List Char := (if n < 0 then '-' else '+') :: ofNat n.natAbs

/-- The text of a natural number. -/
def natText (n : Nat) : String := String.ofList (ofNat n)

/-- The text of an integer. -/
def intText (n : Int) : String := String.ofList (ofInt n)

/-- The text of an integer that always shows its sign. -/
def signedText (n : Int) : String := String.ofList (ofIntSigned n)

/-- The value of a run of decimal digits. -/
def value (digits : List Char) : Nat := Nat.ofDigitChars 10 digits 0

@[simp] theorem value_ofNat (n : Nat) : value (ofNat n) = n :=
  Nat.ofDigitChars_toDigits (by decide) (by decide)

/-- A sign, if the text begins with one, and what follows it: whether the sign is
a minus, and the rest. -/
def splitSign : List Char → Bool × List Char
  | '-' :: cs => (true, cs)
  | '+' :: cs => (false, cs)
  | cs => (false, cs)

/-- One or more decimal digits, and nothing else. -/
def readDigits? (cs : List Char) : Option Nat :=
  if cs ≠ [] ∧ cs.all Char.isDigit then some (value cs) else none

/-- A natural number, with an optional plus sign. -/
def readNat? : List Char → Option Nat
  | '+' :: cs => readDigits? cs
  | cs => readDigits? cs

/-- An integer, with an optional sign. -/
def readInt? (cs : List Char) : Option Int :=
  let (negative, digits) := splitSign cs
  (readDigits? digits).map fun n => if negative then -(n : Int) else n

/-- The value of a hexadecimal digit. -/
def hexDigit? (c : Char) : Option Nat :=
  if c.isDigit then some (c.toNat - '0'.toNat)
  else if 'a' ≤ c ∧ c ≤ 'f' then some (c.toNat - 'a'.toNat + 10)
  else if 'A' ≤ c ∧ c ≤ 'F' then some (c.toNat - 'A'.toNat + 10)
  else none

/-- One or more hexadecimal digits, and nothing else. -/
def readHexDigits? (cs : List Char) : Option Nat :=
  if cs = [] then none
  else (cs.mapM hexDigit?).map fun ds => ds.foldl (fun n d => 16 * n + d) 0

/-- A natural number in hexadecimal, with an optional plus sign. -/
def readHex? : List Char → Option Nat
  | '+' :: cs => readHexDigits? cs
  | cs => readHexDigits? cs

/-- The hexadecimal digits of a natural number, in lower case. -/
def hexOfNat (n : Nat) : List Char := Nat.toDigits 16 n

end StackMachine.Numeral
