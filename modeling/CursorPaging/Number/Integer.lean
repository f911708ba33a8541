import CursorPaging.Number.Decimal

/-!
# Integers of a fixed width

Reading integer numerals into words of a number of bits. What does not fit is no numeral of that
width.

* `Integer.unsigned?`: an optional plus and digits;
* `Integer.signed?`: an optional sign and digits.
-/

namespace CursorPaging

-- powers are those of the core library
attribute [local instance (10000)] instPowNat

namespace Integer

/-- The number below `2 ^ bits` that a numeral spells. -/
def unsigned? (bits : Nat) (text : String) : Option Nat :=
  let digits := match text.toList with
    | '+' :: rest => rest
    | rest => rest
  if Decimal.isDigits digits && Decimal.natOfDigits digits < 2 ^ bits then
    some (Decimal.natOfDigits digits)
  else none

/-- The number from `-2 ^ (bits - 1)` to below `2 ^ (bits - 1)` that a numeral spells. -/
def signed? (bits : Nat) (text : String) : Option Int :=
  let (negative, digits) := Decimal.takeSign text.toList
  let size := Decimal.natOfDigits digits
  if !Decimal.isDigits digits then none
  else if negative then if size ≤ 2 ^ (bits - 1) then some (-(size : Int)) else none
  else if size < 2 ^ (bits - 1) then some size else none

/-- The nearest number from `-2 ^ (bits - 1)` to below `2 ^ (bits - 1)`. -/
def clampSigned (bits : Nat) (n : Int) : Int := max (-2 ^ (bits - 1)) (min (2 ^ (bits - 1) - 1) n)

end Integer

end CursorPaging
