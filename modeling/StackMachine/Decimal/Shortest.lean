import StackMachine.Binary.Arithmetic
import StackMachine.Decimal.Basic

/-!
# Shortest decimal text

The text of a finite number has the fewest digits that read back as the number.
Of two such decimals with as many digits the nearer is taken, and of two equally
near the greater. Numbers of ordinary size are written with a decimal point, all
others with an exponent.
-/

namespace StackMachine

-- Powers of natural numbers mean the same whichever algebra is in scope.
attribute [local instance (10000)] instPowNat

namespace Decimal

/-- The number of decimal digits of a natural number. -/
def digitCount (n : Nat) : Nat := (Numeral.ofNat n).length

/-- The same number with no zero at the end of its coefficient. -/
def trim (d : Decimal) : Decimal :=
  if h : d.coefficient ≠ 0 ∧ d.coefficient % 10 = 0 then
    trim ⟨d.negative, d.coefficient / 10, d.exponent + 1⟩
  else d
termination_by d.coefficient
decreasing_by exact Nat.div_lt_self (by omega) (by decide)

/-- Digits with a point among them, at least one on each side. -/
def positional (d : Decimal) : List Char :=
  let digits := Numeral.ofNat d.coefficient
  let places := (-d.exponent).toNat
  if places = 0 then digits ++ List.replicate d.exponent.toNat '0' ++ ['.', '0']
  else if places < digits.length then
    digits.take (digits.length - places) ++ '.' :: digits.drop (digits.length - places)
  else '0' :: '.' :: List.replicate (places - digits.length) '0' ++ digits

/-- One digit before the point, the others after it, and an exponent. No point is
written if there is one digit only. -/
def scientific (d : Decimal) : List Char :=
  let digits := Numeral.ofNat d.coefficient
  let fraction := digits.drop 1
  digits.take 1 ++ (if fraction = [] then [] else '.' :: fraction) ++
    'e' :: Numeral.ofInt (d.exponent + fraction.length)

end Decimal

namespace Binary

variable {f : Format}

/-- The absolute value of a number. -/
def abs (x : Binary f) : Binary f := { x with negative := false }

/-- The position of the leading digit of a positive number: the `k` for which it
is less than ten to the `k` and not less than a tenth of that. -/
def leadingPlace (x : Binary f) : Int :=
  if f.one ≤ x.absUnits then Decimal.digitCount (x.absUnits / f.one)
  else 1 - Decimal.digitCount (f.one / x.absUnits)

/-- The multiple of ten to the `e` that stands for a positive number, if one of the
two around it reads back as the number. -/
def onGrid? (x : Binary f) (e : Int) : Option Decimal :=
  let num := x.absUnits * 10 ^ (-e).toNat
  let den := f.one * 10 ^ e.toNat
  let below : Decimal := ⟨false, num / den, e⟩
  let above : Decimal := ⟨false, num / den + 1, e⟩
  let belowReads : Bool := ofDecimal below = x
  let aboveReads : Bool := ofDecimal above = x
  if aboveReads && (!belowReads || den ≤ 2 * (num % den)) then some above
  else if belowReads then some below
  else none

/-- The decimal that is exactly a number's absolute value. -/
def exactDecimal (x : Binary f) : Decimal := ⟨false, x.absUnits * 5 ^ f.scale, -(f.scale : Int)⟩

/-- The shortest decimal that reads back as a positive number. Coarser grids are
tried first; seventeen digits are enough for both formats. -/
def shortest (x : Binary f) : Decimal :=
  (((List.range 17).findSome? fun n : Nat => x.onGrid? (x.leadingPlace - 1 - n)).getD
    x.exactDecimal).trim

/-- Positive numbers from `10 ^ -4` up to `10 ^ 16` are written with a decimal point. -/
def isPositional (x : Binary f) : Bool :=
  x.ge (ofDecimal ⟨false, 1, -4⟩) && !x.ge (ofDecimal ⟨false, 1, 16⟩)

/-- The text of a number. -/
def chars (x : Binary f) : List Char :=
  let sign := if x.negative then ['-'] else []
  if x.isNaN then "NaN".toList
  else if x.isInfinite then sign ++ "Infinity".toList
  else if x.isZero then sign ++ "0.0".toList
  else if x.abs.isPositional then sign ++ x.abs.shortest.positional
  else sign ++ x.abs.shortest.scientific

/-- The text of a number, as a string. -/
def text (x : Binary f) : String := String.ofList x.chars

end Binary

end StackMachine
