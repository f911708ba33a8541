import CursorPaging.Number.Decimal

/-!
# Binary floating point of 64 bits

A number as its sign and the other 63 bits read as a natural number, its *magnitude*. Magnitudes
order as the numbers do, so the order of all values, infinities and not-a-numbers included, is an
order of integers. All arithmetic is exact on natural numbers.

* `Binary64`, `Binary64.rank`, `Binary64.order`: the total order;
* `Binary64.unit`, `Binary64.significand`: a finite number is `significand · 2 ^ unit`;
* `Binary64.roundRatio`: the nearest magnitude, ties to even;
* **`Binary64.ofDecimal`**: a decimal numeral rounded correctly;
* `Binary64.toUnsigned`, `Binary64.truncate`: to integers.
-/

namespace CursorPaging

-- powers are those of the core library
attribute [local instance (10000)] instPowNat

/-- A sign and the 63 bits below it. -/
structure Binary64 where
  negative : Bool
  magnitude : Nat
  deriving DecidableEq, Repr

namespace Binary64

/-- The magnitude of infinity. Those above it are not numbers. -/
def infinity : Nat := 0x7FF * 2 ^ (52 : Nat)

/-- The 64 bits, sign first. -/
def bits (x : Binary64) : Nat := (if x.negative then 2 ^ (63 : Nat) else 0) + x.magnitude

def isFinite (x : Binary64) : Bool := x.magnitude < infinity

/-- The place of a value in the order of all values: negative zero comes right before zero. -/
def rank (x : Binary64) : Int := if x.negative then -(x.magnitude : Int) - 1 else x.magnitude

/-- The order of all values. -/
def order (x y : Binary64) : Ordering := compare x.rank y.rank

/-! ## Exact values -/

/-- The exponent of two of the last bit of a finite magnitude. -/
def unit (magnitude : Nat) : Int := max (magnitude / 2 ^ (52 : Nat) : Nat) 1 - 1075

/-- The number of last-bit units of a finite magnitude. -/
def significand (magnitude : Nat) : Nat :=
  if magnitude < 2 ^ (52 : Nat) then magnitude else 2 ^ (52 : Nat) + magnitude % 2 ^ (52 : Nat)

/-- The ratio `num / den` divided by `2 ^ power`. -/
def scaleDown (num den : Nat) (power : Int) : Nat × Nat :=
  if 0 ≤ power then (num, den * 2 ^ power.toNat) else (num * 2 ^ (-power).toNat, den)

/-- A finite magnitude as a ratio. -/
def ratio (magnitude : Nat) : Nat × Nat := scaleDown (significand magnitude) 1 (-unit magnitude)

/-! ## Rounding -/

/-- The integer nearest to a ratio, ties to even. -/
def roundHalfEven (num den : Nat) : Nat :=
  let q := num / den
  let r := num % den
  if 2 * r < den then q else if den < 2 * r then q + 1 else q + q % 2

/-- The exponent of two of the last bit that a positive ratio keeps. -/
def keptUnit (num den : Nat) : Int :=
  let guess : Int := (num.log2 : Int) - den.log2 - 52
  let (n, d) := scaleDown num den guess
  max (if n < 2 ^ (52 : Nat) * d then guess - 1 else guess) (-1074)

/-- The magnitude nearest to a positive ratio, ties to even; infinity if it is too large. Units
lie `2 ^ 52` magnitudes apart, so a significand that rounds up to the next power of two needs no
case of its own. -/
def roundRatio (num den : Nat) : Nat :=
  let power := keptUnit num den
  let (n, d) := scaleDown num den power
  min infinity ((power + 1074).toNat * 2 ^ (52 : Nat) + roundHalfEven n d)

/-- The magnitude nearest to `digits · 10 ^ exponent`. Numbers far beyond the ends of the range
are told by their size alone. -/
def roundDecimal (digits : Nat) (exponent : Int) : Nat :=
  if digits = 0 then 0
  else if 400 < exponent then infinity
  else if exponent + (digits.log2 + 1) < -400 then 0
  else if 0 ≤ exponent then roundRatio (digits * 10 ^ exponent.toNat) 1
  else roundRatio digits (10 ^ (-exponent).toNat)

/-- A decimal numeral rounded to the nearest value. -/
def ofDecimal (d : Decimal) : Binary64 := ⟨d.negative, roundDecimal d.digits d.exponent⟩

/-- The finite number that a text spells. -/
def finite? (text : String) : Option Binary64 :=
  match Decimal.ofText? text with
  | some d => if (ofDecimal d).isFinite then some (ofDecimal d) else none
  | none => none

/-- The number that a text spells: a numeral, or the name of infinity or of no number in any
case. -/
def ofText? (text : String) : Option Binary64 :=
  match Decimal.ofText? text with
  | some d => some (ofDecimal d)
  | none =>
    let (negative, body) := Decimal.takeSign text.toList
    let name := body.map Char.toLower
    if name = "inf".toList ∨ name = "infinity".toList then some ⟨negative, infinity⟩
    else if name = "nan".toList then some ⟨negative, infinity + 2 ^ (51 : Nat)⟩
    else none

/-! ## To integers -/

/-- The nearest natural number below `2 ^ bits`, halves away from zero; zero for what is no
number. -/
def toUnsigned (bits : Nat) (x : Binary64) : Nat :=
  if x.magnitude > infinity ∨ x.negative then 0
  else if x.magnitude = infinity then 2 ^ bits - 1
  else
    let (n, d) := ratio x.magnitude
    min (2 ^ bits - 1) ((2 * n + d) / (2 * d))

/-- The integer part of a finite number. -/
def truncate (x : Binary64) : Int :=
  let (n, d) := ratio x.magnitude
  if x.negative then -(n / d : Nat) else (n / d : Nat)

end Binary64

end CursorPaging
