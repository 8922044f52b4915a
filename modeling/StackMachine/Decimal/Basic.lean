import StackMachine.Binary.Round
import StackMachine.Text.Numeral

/-!
# Decimal numbers

A decimal number is a sign, a whole coefficient and a power of ten. The text of
one is an optional sign, digits with an optional point among them, and an
optional exponent; at least one digit stands before the exponent and at least
one after its letter.
-/

namespace StackMachine

-- Powers of natural numbers mean the same whichever algebra is in scope.
attribute [local instance (10000)] instPowNat

/-- The number `± coefficient · 10 ^ exponent`. -/
structure Decimal where
  /-- Whether a minus sign stands in front. -/
  negative : Bool
  /-- The digits, read as a whole number. -/
  coefficient : Nat
  /-- The power of ten that scales the coefficient. -/
  exponent : Int
deriving DecidableEq, Repr

namespace Decimal

/-- An exponent: nothing at all, or a letter `e` and a whole number. -/
def readExponent? : List Char → Option Int
  | [] => some 0
  | c :: cs =>
    if c = 'e' ∨ c = 'E' then
      let (negative, digits) := Numeral.splitSign cs
      (Numeral.readDigits? digits).map fun n => if negative then -(n : Int) else n
    else none

/-- Read a decimal number; the whole text must be one. -/
def read? (cs : List Char) : Option Decimal :=
  let (negative, body) := Numeral.splitSign cs
  let whole := body.takeWhile Char.isDigit
  let rest := body.dropWhile Char.isDigit
  let (fraction, rest) := match rest with
    | '.' :: after => (after.takeWhile Char.isDigit, after.dropWhile Char.isDigit)
    | _ => ([], rest)
  if whole = [] ∧ fraction = [] then none
  else (readExponent? rest).map fun e =>
    ⟨negative, Numeral.value (whole ++ fraction), e - fraction.length⟩

end Decimal

namespace Binary

variable {f : Format}

/-- A bound on decimal exponents: ten to any greater power is past the largest number
of a format, and ten to minus any greater power is less than half of the least.
Powers of two up to `n` stay below ten to four tenths of `n`. -/
def decimalRange (f : Format) : Nat := 4 * (2 ^ (f.exponentBits - 1) + f.fractionBits) / 10

/-- The number nearest to a decimal number. Exponents so large, or so far below
the length of the coefficient, that the result is an infinity or zero are not
multiplied out. -/
def ofDecimal (d : Decimal) : Binary f :=
  if d.coefficient = 0 then zero d.negative
  else if (decimalRange f : Int) < d.exponent then infinity d.negative
  else if d.exponent + (d.coefficient.log2 + 1) < -(decimalRange f : Int) then zero d.negative
  else
    nearest d.negative (d.coefficient * 10 ^ d.exponent.toNat * f.one)
      (10 ^ (-d.exponent).toNat)

end Binary

end StackMachine
