import CursorPaging.Number.Binary64

/-!
# Scaled numbers

A natural number times a power of ten by a few rounded steps: number and power are rounded on their
own, then multiplied or divided. The result can be a little off the nearest value.

* `Binary64.mul`, `Binary64.div`: of finite magnitudes, rounded to nearest;
* **`Binary64.scaled?`**.
-/

namespace CursorPaging

namespace Binary64

/-- The magnitude nearest to a ratio, which may be zero. -/
def nearest (num den : Nat) : Nat := if num = 0 then 0 else roundRatio num den

/-- The product of two finite magnitudes. -/
def mul (x y : Nat) : Nat := nearest ((ratio x).1 * (ratio y).1) ((ratio x).2 * (ratio y).2)

/-- The quotient of two finite magnitudes, the second not zero. -/
def div (x y : Nat) : Nat := nearest ((ratio x).1 * (ratio y).2) ((ratio x).2 * (ratio y).1)

/-- The power of ten with the largest exponent that is a finite number. -/
def largestPower : Nat := 308

/-- A magnitude times a power of ten, nothing if that is too large. An exponent below the range of
powers is worked off from above; two such steps reach zero from any significand of 64 bits. -/
def scaleMagnitude? : Nat → Nat → Int → Option Nat
  | 0, _, _ => some 0
  | steps + 1, x, exponent =>
    if exponent.natAbs ≤ largestPower then
      let power := roundDecimal 1 exponent.natAbs
      if exponent < 0 then some (div x power)
      else if mul x power = infinity then none
      else some (mul x power)
    else if x = 0 then some 0
    else if 0 < exponent then none
    else scaleMagnitude? steps (div x (roundDecimal 1 largestPower)) (exponent + largestPower)

/-- The number `± significand · 10 ^ exponent`, nothing if it is too large. -/
def scaled? (negative : Bool) (significand : Nat) (exponent : Int) : Option Binary64 :=
  (scaleMagnitude? 4 (nearest significand 1) exponent).map fun x => ⟨negative, x⟩

end Binary64

end CursorPaging
