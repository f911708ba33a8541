/-!
# Decimal numerals

Text such as `-12.50e3`, read exactly as a sign, a natural number and a power of ten.

* `Decimal`: the number `± digits · 10 ^ exponent`;
* `Decimal.ofText?`: the grammar. An optional sign, ASCII digits with at most one point and at
  least one digit on either side of it, and optionally `e` or `E`, a sign and digits.
-/

namespace CursorPaging

/-- The number `± digits · 10 ^ exponent`. -/
structure Decimal where
  negative : Bool
  digits : Nat
  exponent : Int
  deriving DecidableEq, Repr

namespace Decimal

/-- The number that a list of ASCII digits spells. -/
def natOfDigits (digits : List Char) : Nat :=
  digits.foldl (fun n c => n * 10 + (c.toNat - 48)) 0

/-- Whether a numeral starts with a minus, and what follows its sign. -/
def takeSign : List Char → Bool × List Char
  | '-' :: rest => (true, rest)
  | '+' :: rest => (false, rest)
  | rest => (false, rest)

/-- At least one digit and nothing else. -/
def isDigits (text : List Char) : Bool := !text.isEmpty && text.all Char.isDigit

/-- The power of ten that ends a numeral; nothing stands for zero. -/
def exponent? : List Char → Option Int
  | [] => some 0
  | mark :: rest =>
    if mark = 'e' ∨ mark = 'E' then
      let (negative, digits) := takeSign rest
      if isDigits digits then
        some (if negative then -(natOfDigits digits : Int) else natOfDigits digits)
      else none
    else none

/-- What follows the whole part: the digits after a point, and the rest. -/
def takeFraction : List Char → List Char × List Char
  | '.' :: rest => (rest.takeWhile Char.isDigit, rest.dropWhile Char.isDigit)
  | rest => ([], rest)

/-- The number that a numeral spells. -/
def ofText? (text : String) : Option Decimal :=
  let (negative, body) := takeSign text.toList
  let whole := body.takeWhile Char.isDigit
  let (fraction, tail) := takeFraction (body.dropWhile Char.isDigit)
  if (whole ++ fraction).isEmpty then none
  else (exponent? tail).map fun power =>
    ⟨negative, natOfDigits (whole ++ fraction), power - fraction.length⟩

end Decimal

end CursorPaging
