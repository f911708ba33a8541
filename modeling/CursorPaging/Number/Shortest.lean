import CursorPaging.Number.Binary64

/-!
# The shortest decimal text

A floating-point number is written with the fewest digits that read back as the same number and,
of those, the nearest; a tie goes up. The notation is positional, without an exponent.

* `Shortest.digits`: the digits and the power of ten of a positive finite magnitude;
* **`Binary64.text`**.
-/

namespace CursorPaging

-- powers are those of the core library
attribute [local instance (10000)] instPowNat

namespace Shortest

/-- The reals that round to one magnitude, as `low / den`, `value / den` and `high / den`; the ends
belong to them if `closed`. -/
structure Interval where
  low : Nat
  value : Nat
  high : Nat
  den : Nat
  closed : Bool

/-- The reals that round to a positive finite magnitude. The gap below a power of two is half as
wide as the one above it. -/
def interval (magnitude : Nat) : Interval :=
  let m := Binary64.significand magnitude
  let below := if m = 2 ^ (52 : Nat) ∧ 2 ^ (53 : Nat) ≤ magnitude then 1 else 2
  let power := Binary64.unit magnitude - 2
  let up := if 0 ≤ power then 2 ^ power.toNat else 1
  let den := if 0 ≤ power then 1 else 2 ^ (-power).toNat
  ⟨(4 * m - below) * up, 4 * m * up, (4 * m + 2) * up, den, m % 2 = 0⟩

/-- Whether `point · 10 ^ power` lies in the interval. -/
def Interval.contains (i : Interval) (point : Nat) (power : Int) : Bool :=
  let num := if 0 ≤ power then point * 10 ^ power.toNat * i.den else point * i.den
  let unit := if 0 ≤ power then 1 else 10 ^ (-power).toNat
  let low := i.low * unit
  let high := i.high * unit
  if i.closed then low ≤ num && num ≤ high else low < num && num < high

/-- The multiples of `10 ^ power` around the value, each with its distance. -/
def Interval.around (i : Interval) (power : Int) : (Nat × Nat) × (Nat × Nat) :=
  let num := if 0 ≤ power then i.value else i.value * 10 ^ (-power).toNat
  let den := if 0 ≤ power then i.den * 10 ^ power.toNat else i.den
  let q := num / den
  let r := num % den
  ((q, r), (q + 1, den - r))

/-- The multiple of `10 ^ power` in the interval that is nearest to the value. -/
def Interval.nearest? (i : Interval) (power : Int) : Option Nat :=
  let ((down, downBy), (up, upBy)) := i.around power
  match i.contains down power, i.contains up power with
  | true, true => some (if downBy < upBy then down else up)
  | true, false => some down
  | false, true => some up
  | false, false => none

/-- The number of decimal digits of a natural number. -/
def decimalLength (n : Nat) : Nat := (Nat.toDigits 10 n).length

/-- The power of ten right above the value. -/
def Interval.top (i : Interval) : Int :=
  if i.den ≤ i.value then decimalLength (i.value / i.den)
  else 1 - decimalLength ((i.den - 1) / i.value)

/-- Search from the coarsest grid on for one with a multiple in the interval. -/
def Interval.search (i : Interval) : Nat → Int → Nat × Int
  | 0, power => (i.value * 10 ^ (-power).toNat / i.den, power)
  | steps + 1, power =>
    match i.nearest? power with
    | some point => (point, power)
    | none => i.search steps (power - 1)

/-- Drop the zeros that end a numeral, at most `steps` of them. -/
def stripZeros : Nat → Nat × Int → Nat × Int
  | 0, d => d
  | steps + 1, (n, power) =>
    if n % 10 = 0 then stripZeros steps (n / 10, power + 1) else (n, power)

/-- The digits and the power of ten of a positive finite magnitude. -/
def digits (magnitude : Nat) : Nat × Int :=
  let i := interval magnitude
  stripZeros 17 (i.search 17 (i.top - 1))

/-- The positional notation of `digits · 10 ^ power`. -/
def positional (digits : Nat) (power : Int) : String :=
  let text := Nat.toDigits 10 digits
  if 0 ≤ power then String.ofList (text ++ List.replicate power.toNat '0')
  else
    let places := (-power).toNat
    let padded := List.replicate (places + 1 - text.length) '0' ++ text
    let whole := padded.length - places
    String.ofList (padded.take whole ++ '.' :: padded.drop whole)

end Shortest

/-- The text of a number. -/
def Binary64.text (x : Binary64) : String :=
  if x.magnitude > infinity then "NaN"
  else
    let sign := if x.negative then "-" else ""
    if x.magnitude = infinity then sign ++ "inf"
    else if x.magnitude = 0 then sign ++ "0"
    else
      let (digits, power) := Shortest.digits x.magnitude
      sign ++ Shortest.positional digits power

end CursorPaging
