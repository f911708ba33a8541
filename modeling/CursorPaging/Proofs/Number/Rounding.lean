import Mathlib.Algebra.Order.Field.Power
import Mathlib.Data.Int.Log
import Mathlib.Data.Rat.Floor
import Mathlib.Tactic.FieldSimp
import Mathlib.Tactic.Linarith
import Mathlib.Tactic.NormNum
import Mathlib.Tactic.Positivity
import Mathlib.Tactic.Ring
import CursorPaging.Number.Binary64

/-!
# Rounding

The magnitude nearest to a ratio depends on the ratio alone, not on how it is written, and a larger
ratio never has a smaller one.

* `roundHalfEven_spec`, `roundHalfEven_mono`: the nearest integer;
* `unitOf`, `ratio_bounds`, `keptUnit_eq`: the last bit that a ratio keeps; `scaleDown_spec`: it is
  counted in these;
* `place`, `roundRatio_eq`; **`roundRatio_mono`**;
* `roundRatio_of_large`, `roundRatio_of_small`: beyond the ends of the range; `le_numeral`,
  `numeral_lt`: the numerals there;
* `roundDecimal_eq`, **`roundDecimal_mono`**: decimal numerals are rounded as the ratios that they
  are.
-/

namespace CursorPaging

-- powers are those of the core library
attribute [local instance (10000)] instPowNat

namespace Binary64

variable {num den num' den' n d n' d' : Nat} {x y : ℚ} {power : Int}

/-! ## The nearest integer -/

theorem div_eq_quotient_add (n : Nat) (hd : 0 < d) :
    (n : ℚ) / d = (n / d : Nat) + ((n % d : Nat) : ℚ) / d := by
  have hd' : (d : ℚ) ≠ 0 := by positivity
  field_simp
  exact_mod_cast (Nat.div_add_mod n d).symm

theorem roundHalfEven_spec (n : Nat) (hd : 0 < d) :
    2 * (roundHalfEven n d : ℚ) ≤ 2 * (n / d) + 1 ∧ 2 * ((n : ℚ) / d) ≤ 2 * roundHalfEven n d + 1 ∧
      (2 * (roundHalfEven n d : ℚ) = 2 * (n / d) + 1 ∨
        2 * ((n : ℚ) / d) = 2 * roundHalfEven n d + 1 → roundHalfEven n d % 2 = 0) := by
  have hd' : (0 : ℚ) < d := by exact_mod_cast hd
  have hrest : ((n % d : Nat) : ℚ) / d * d = (n % d : Nat) := by field_simp
  rw [div_eq_quotient_add n hd]
  generalize hf : ((n % d : Nat) : ℚ) / d = f at hrest ⊢
  have hf0 : 0 ≤ f := by rw [← hf]; positivity
  unfold roundHalfEven
  dsimp only
  split_ifs with hlow hhigh
  · have hlow' : 2 * ((n % d : Nat) : ℚ) < d := by exact_mod_cast hlow
    have hhalf : 2 * f < 1 := by nlinarith
    refine ⟨by linarith, by linarith, fun h => ?_⟩
    rcases h with h | h <;> linarith
  · have hhigh' : (d : ℚ) < 2 * ((n % d : Nat) : ℚ) := by exact_mod_cast hhigh
    have hlt : ((n % d : Nat) : ℚ) < d := by exact_mod_cast Nat.mod_lt n hd
    have hhalf : 1 < 2 * f := by nlinarith
    have hone : f < 1 := by nlinarith
    push_cast
    refine ⟨by linarith, by linarith, fun h => ?_⟩
    rcases h with h | h <;> linarith
  · have htie : 2 * ((n % d : Nat) : ℚ) = d := by exact_mod_cast (by omega : 2 * (n % d) = d)
    have hhalf : 2 * f = 1 := by nlinarith
    rcases Nat.mod_two_eq_zero_or_one (n / d) with heven | hodd
    · rw [heven]
      exact ⟨by push_cast; linarith, by push_cast; linarith, fun _ => by omega⟩
    · rw [hodd]
      exact ⟨by push_cast; linarith, by push_cast; linarith, fun _ => by omega⟩

theorem roundHalfEven_mono (hd : 0 < d) (hd' : 0 < d') (h : (n : ℚ) / d ≤ n' / d') :
    roundHalfEven n d ≤ roundHalfEven n' d' := by
  obtain ⟨habove, -, heven⟩ := roundHalfEven_spec n hd
  obtain ⟨-, hbelow, heven'⟩ := roundHalfEven_spec n' hd'
  by_contra hlt
  -- both would lie half way between the same two integers
  have hgap : (roundHalfEven n' d' : ℚ) + 1 ≤ roundHalfEven n d := by
    exact_mod_cast Nat.lt_of_not_le hlt
  have hfirst := heven (.inl (by linarith))
  have hsecond := heven' (.inr (by linarith))
  have hnext : roundHalfEven n d = roundHalfEven n' d' + 1 := by
    have : (roundHalfEven n d : ℚ) = roundHalfEven n' d' + 1 := by linarith
    exact_mod_cast this
  omega

/-! ## The last bit -/

/-- The exponent of two of the last bit that a positive number keeps. -/
def unitOf (x : ℚ) : Int := max (Int.log 2 x - 52) (-1074)

theorem unitOf_mono (hx : 0 < x) (h : x ≤ y) : unitOf x ≤ unitOf y := by
  have hlog := Int.log_mono_right (b := 2) hx h
  unfold unitOf
  omega

theorem log_eq (hx : 0 < x) {k : Int} (hlow : 2 ^ k ≤ x) (hhigh : x < 2 ^ (k + 1)) :
    Int.log 2 x = k := by
  have hle := (Int.zpow_le_iff_le_log (b := 2) (by decide) hx).1 hlow
  have hlt := (Int.lt_zpow_iff_log_lt (b := 2) (by decide) hx).1 hhigh
  omega

theorem scaleDown_spec (num : Nat) (hden : 0 < den) (power : Int) :
    0 < (scaleDown num den power).2 ∧
      ((scaleDown num den power).1 : ℚ) / (scaleDown num den power).2 = num / den / 2 ^ power := by
  unfold scaleDown
  split_ifs with hpower
  · obtain ⟨k, rfl⟩ := Int.eq_ofNat_of_zero_le hpower
    refine ⟨Nat.mul_pos hden (Nat.two_pow_pos _), ?_⟩
    push_cast
    rw [Int.toNat_natCast, zpow_natCast, div_div]
  · obtain ⟨k, rfl⟩ : ∃ k : Nat, power = -k := ⟨power.natAbs, by omega⟩
    refine ⟨hden, ?_⟩
    push_cast
    rw [neg_neg, Int.toNat_natCast, zpow_neg, zpow_natCast, div_inv_eq_mul]
    ring

theorem log2_bounds (hn : 0 < n) :
    (2 : ℚ) ^ (n.log2 : Int) ≤ n ∧ (n : ℚ) < 2 ^ ((n.log2 : Int) + 1) := by
  constructor
  · rw [zpow_natCast]
    exact_mod_cast Nat.log2_self_le (Nat.pos_iff_ne_zero.1 hn)
  · exact_mod_cast Nat.lt_log2_self (n := n)

/-- The bit lengths tell a ratio up to a factor of four. -/
theorem ratio_bounds (hnum : 0 < num) (hden : 0 < den) :
    (2 : ℚ) ^ ((num.log2 : Int) - den.log2 - 1) ≤ (num : ℚ) / den ∧
      (num : ℚ) / den < 2 ^ ((num.log2 : Int) - den.log2 + 1) := by
  have hden' : (0 : ℚ) < den := by exact_mod_cast hden
  obtain ⟨hnumLow, hnumHigh⟩ := log2_bounds hnum
  obtain ⟨hdenLow, hdenHigh⟩ := log2_bounds hden
  generalize (num.log2 : Int) = a at *
  generalize (den.log2 : Int) = b at *
  constructor
  · rw [le_div_iff₀ hden']
    calc (2 : ℚ) ^ (a - b - 1) * den ≤ 2 ^ (a - b - 1) * 2 ^ (b + 1) :=
          mul_le_mul_of_nonneg_left hdenHigh.le (by positivity)
      _ = 2 ^ a := by rw [← zpow_add₀ two_ne_zero]; congr 1; ring
      _ ≤ num := hnumLow
  · rw [div_lt_iff₀ hden']
    calc (num : ℚ) < 2 ^ (a + 1) := hnumHigh
      _ = 2 ^ (a - b + 1) * 2 ^ b := by rw [← zpow_add₀ two_ne_zero]; congr 1; ring
      _ ≤ 2 ^ (a - b + 1) * den := mul_le_mul_of_nonneg_left hdenLow (by positivity)

/-- The unit is found from the bit lengths, which are at most one off. -/
theorem keptUnit_eq (hnum : 0 < num) (hden : 0 < den) :
    keptUnit num den = unitOf ((num : ℚ) / den) := by
  have hx : (0 : ℚ) < (num : ℚ) / den := by positivity
  obtain ⟨hlow, hhigh⟩ := ratio_bounds hnum hden
  unfold keptUnit unitOf
  dsimp only
  generalize (num.log2 : Int) - den.log2 = guess at *
  obtain ⟨hd, hratio⟩ := scaleDown_spec num hden (guess - 52)
  rcases hscaled : scaleDown num den (guess - 52) with ⟨n, d⟩
  rw [hscaled] at hd hratio
  have hd' : (0 : ℚ) < d := by exact_mod_cast hd
  have hcut : n < 2 ^ (52 : Nat) * d ↔ (num : ℚ) / den < 2 ^ guess := by
    have hcast : n < 2 ^ (52 : Nat) * d ↔ (n : ℚ) < 2 ^ (52 : Int) * d := by
      rw [show (2 : ℚ) ^ (52 : Int) = ((2 ^ (52 : Nat) : Nat) : ℚ) by norm_num]
      exact_mod_cast Iff.rfl
    rw [hcast, ← div_lt_iff₀ hd', hratio, div_lt_iff₀ (by positivity), ← zpow_add₀ two_ne_zero]
    rw [show (52 : Int) + (guess - 52) = guess by ring]
  dsimp only
  split_ifs with hn
  · rw [log_eq hx hlow (by rw [sub_add_cancel]; exact hcut.1 hn)]
    omega
  · rw [log_eq hx (le_of_not_gt fun h => hn (hcut.2 h)) hhigh]

/-! ## The nearest magnitude -/

/-- The magnitude of a number of units. -/
def place (power : Int) (kept : Nat) : Nat := (power + 1074).toNat * 2 ^ (52 : Nat) + kept

theorem roundRatio_eq (hnum : 0 < num) (hden : 0 < den) :
    ∃ n d : Nat, 0 < d ∧ (n : ℚ) / d = (num : ℚ) / den / 2 ^ unitOf ((num : ℚ) / den) ∧
      roundRatio num den =
        min infinity (place (unitOf ((num : ℚ) / den)) (roundHalfEven n d)) := by
  obtain ⟨hd, hratio⟩ := scaleDown_spec num hden (unitOf ((num : ℚ) / den))
  refine ⟨_, _, hd, hratio, ?_⟩
  unfold roundRatio
  rw [keptUnit_eq hnum hden]
  rfl

theorem units_lt (x : ℚ) : x / 2 ^ unitOf x < (2 ^ (53 : Nat) : Nat) := by
  have hlog := Int.lt_zpow_succ_log_self (b := 2) (by decide) x
  rw [div_lt_iff₀ (by positivity)]
  calc x < 2 ^ (Int.log 2 x + 1) := by exact_mod_cast hlog
    _ ≤ 2 ^ (53 + unitOf x) := zpow_le_zpow_right₀ (by norm_num) (by unfold unitOf; omega)
    _ = (2 ^ (53 : Nat) : Nat) * 2 ^ unitOf x := by
      rw [zpow_add₀ two_ne_zero]
      norm_num

/-- Above the smallest unit, a number has at least as many units as a significand has bits. -/
theorem le_units (hx : 0 < x) (hunit : unitOf x ≠ -1074) :
    ((2 ^ (52 : Nat) : Nat) : ℚ) ≤ x / 2 ^ unitOf x := by
  have hlog := Int.zpow_log_le_self (b := 2) (by decide) hx
  rw [le_div_iff₀ (by positivity)]
  calc ((2 ^ (52 : Nat) : Nat) : ℚ) * 2 ^ unitOf x = 2 ^ (52 + unitOf x) := by
        rw [zpow_add₀ two_ne_zero]
        norm_num
    _ = 2 ^ Int.log 2 x := by
      congr 1
      unfold unitOf at hunit ⊢
      omega
    _ ≤ x := by exact_mod_cast hlog

theorem roundHalfEven_one (k : Nat) : roundHalfEven k 1 = k := by
  simp [roundHalfEven, Nat.mod_one]

theorem le_roundHalfEven {k : Nat} (hd : 0 < d) (h : (k : ℚ) ≤ n / d) : k ≤ roundHalfEven n d := by
  have hmono : roundHalfEven k 1 ≤ roundHalfEven n d :=
    roundHalfEven_mono Nat.one_pos hd (by simpa using h)
  rwa [roundHalfEven_one] at hmono

theorem roundHalfEven_le {k : Nat} (hd : 0 < d) (h : (n : ℚ) / d ≤ k) : roundHalfEven n d ≤ k := by
  have hmono : roundHalfEven n d ≤ roundHalfEven k 1 :=
    roundHalfEven_mono hd Nat.one_pos (by simpa using h)
  rwa [roundHalfEven_one] at hmono

/-- **A larger ratio does not have a smaller magnitude.** -/
theorem roundRatio_mono (hnum : 0 < num) (hden : 0 < den) (hnum' : 0 < num') (hden' : 0 < den')
    (h : (num : ℚ) / den ≤ num' / den') : roundRatio num den ≤ roundRatio num' den' := by
  obtain ⟨n, d, hd, hn, heq⟩ := roundRatio_eq hnum hden
  obtain ⟨n', d', hd', hn', heq'⟩ := roundRatio_eq hnum' hden'
  rw [heq, heq']
  refine min_le_min_left _ ?_
  have hx : (0 : ℚ) < num / den := by positivity
  have hy : (0 : ℚ) < num' / den' := by positivity
  generalize (num : ℚ) / den = x at *
  generalize (num' : ℚ) / den' = y at *
  have hunit := unitOf_mono hx h
  have hfloor : -1074 ≤ unitOf x := le_max_right _ _
  unfold place
  rcases hunit.eq_or_lt with hsame | hless
  · -- both are counted in the same units
    have hkept : roundHalfEven n d ≤ roundHalfEven n' d' := by
      refine roundHalfEven_mono hd hd' ?_
      rw [hn, hn', hsame]
      exact div_le_div_of_nonneg_right h (by positivity)
    rw [hsame]
    omega
  · -- the first rounds up to the next unit at most, and the second has all bits of a later one
    have hkept : roundHalfEven n d ≤ 2 ^ (53 : Nat) :=
      roundHalfEven_le hd (by rw [hn]; exact (units_lt x).le)
    have hkept' : 2 ^ (52 : Nat) ≤ roundHalfEven n' d' :=
      le_roundHalfEven hd' (by rw [hn']; exact le_units hy (by omega))
    have hsteps : (unitOf x + 1074).toNat + 1 ≤ (unitOf y + 1074).toNat := by omega
    have hgap := Nat.mul_le_mul_right (2 ^ (52 : Nat)) hsteps
    omega

/-! ## The ends of the range -/

theorem roundRatio_of_large (hnum : 0 < num) (hden : 0 < den)
    (h : (2 : ℚ) ^ (1024 : Int) ≤ num / den) : roundRatio num den = infinity := by
  obtain ⟨n, d, hd, hn, heq⟩ := roundRatio_eq hnum hden
  have hx : (0 : ℚ) < num / den := by positivity
  generalize (num : ℚ) / den = x at *
  have hlog : 1024 ≤ Int.log 2 x :=
    (Int.zpow_le_iff_le_log (b := 2) (by decide) hx).1 (by exact_mod_cast h)
  have hunit : 972 ≤ unitOf x := by
    unfold unitOf
    omega
  have hkept : 2 ^ (52 : Nat) ≤ roundHalfEven n d :=
    le_roundHalfEven hd (by rw [hn]; exact le_units hx (by omega))
  rw [heq, min_eq_left]
  have hsteps : 2046 ≤ (unitOf x + 1074).toNat := by omega
  have hplace := Nat.mul_le_mul_right (2 ^ (52 : Nat)) hsteps
  unfold place infinity
  omega

theorem roundRatio_of_small (hnum : 0 < num) (hden : 0 < den)
    (h : (num : ℚ) / den < 2 ^ (-1075 : Int)) : roundRatio num den = 0 := by
  obtain ⟨n, d, hd, hn, heq⟩ := roundRatio_eq hnum hden
  have hx : (0 : ℚ) < num / den := by positivity
  generalize (num : ℚ) / den = x at *
  have hlog : Int.log 2 x < -1075 :=
    (Int.lt_zpow_iff_log_lt (b := 2) (by decide) hx).1 (by exact_mod_cast h)
  have hunit : unitOf x = -1074 := by
    unfold unitOf
    omega
  have hhalf : (n : ℚ) / d < 1 / 2 := by
    rw [hn, hunit, div_lt_iff₀ (by positivity)]
    calc x < 2 ^ (-1075 : Int) := h
      _ = 1 / 2 * 2 ^ (-1074 : Int) := by
        rw [show (-1075 : Int) = -1 + -1074 by norm_num, zpow_add₀ two_ne_zero]
        norm_num
  obtain ⟨habove, -, -⟩ := roundHalfEven_spec n hd
  have hkept : roundHalfEven n d = 0 := by
    have hlt : (roundHalfEven n d : ℚ) < (1 : Nat) := by
      push_cast
      linarith
    exact Nat.lt_one_iff.1 (by exact_mod_cast hlt)
  rw [heq, hunit, hkept]
  rfl

/-! ## Decimal numerals -/

theorem two_zpow_lt_ten_zpow : (2 : ℚ) ^ (1075 : Int) < 10 ^ (401 : Int) := by
  calc (2 : ℚ) ^ (1075 : Int) = (2 ^ (43 : Int)) ^ (25 : Int) := by
        rw [show (1075 : Int) = 43 * 25 by norm_num, zpow_mul]
    _ < (10 ^ (16 : Int)) ^ (25 : Int) :=
        zpow_lt_zpow_left₀ (by norm_num) (by positivity) (by norm_num)
    _ = 10 ^ (400 : Int) := by rw [← zpow_mul]; congr 1
    _ ≤ 10 ^ (401 : Int) := zpow_le_zpow_right₀ (by norm_num) (by norm_num)

theorem le_numeral {digits : Nat} {exponent : Int} (hdigits : 0 < digits) (h : 400 < exponent) :
    (2 : ℚ) ^ (1024 : Int) ≤ digits * 10 ^ exponent := by
  have hdigits' : (1 : ℚ) ≤ digits := by exact_mod_cast hdigits
  calc (2 : ℚ) ^ (1024 : Int) ≤ 2 ^ (1075 : Int) := zpow_le_zpow_right₀ (by norm_num) (by norm_num)
    _ ≤ 10 ^ (401 : Int) := two_zpow_lt_ten_zpow.le
    _ ≤ 10 ^ exponent := zpow_le_zpow_right₀ (by norm_num) (by omega)
    _ ≤ digits * 10 ^ exponent := le_mul_of_one_le_left (by positivity) hdigits'

/-- A numeral with so few digits and this exponent is beyond the small end of the range. -/
theorem numeral_lt {digits : Nat} {exponent : Int} (hdigits : 0 < digits)
    (h : exponent + (digits.log2 + 1) < -400) :
    (digits : ℚ) * 10 ^ exponent < 2 ^ (-1075 : Int) := by
  have hbits := (log2_bounds hdigits).2
  calc (digits : ℚ) * 10 ^ exponent ≤ 2 ^ ((digits.log2 : Int) + 1) * 10 ^ exponent :=
        mul_le_mul_of_nonneg_right hbits.le (by positivity)
    _ ≤ 10 ^ ((digits.log2 : Int) + 1) * 10 ^ exponent :=
        mul_le_mul_of_nonneg_right (zpow_le_zpow_left₀ (by omega) (by norm_num) (by norm_num))
          (by positivity)
    _ = 10 ^ ((digits.log2 : Int) + 1 + exponent) := (zpow_add₀ (by norm_num) _ _).symm
    _ ≤ 10 ^ (-401 : Int) := zpow_le_zpow_right₀ (by norm_num) (by omega)
    _ < 2 ^ (-1075 : Int) := by
      rw [zpow_neg, zpow_neg]
      exact inv_strictAnti₀ (by positivity) two_zpow_lt_ten_zpow

theorem roundDecimal_eq {digits : Nat} (hdigits : 0 < digits) (exponent : Int) :
    ∃ num den : Nat, 0 < num ∧ 0 < den ∧ (num : ℚ) / den = digits * 10 ^ exponent ∧
      roundDecimal digits exponent = roundRatio num den := by
  unfold roundDecimal
  rw [if_neg (by omega)]
  by_cases hsign : 0 ≤ exponent
  · obtain ⟨k, rfl⟩ := Int.eq_ofNat_of_zero_le hsign
    have hnum : 0 < digits * 10 ^ k := Nat.mul_pos hdigits (Nat.pow_pos (by decide))
    have hvalue : ((digits * 10 ^ k : Nat) : ℚ) / (1 : Nat) = digits * 10 ^ (k : Int) := by
      rw [zpow_natCast]
      push_cast
      ring
    refine ⟨digits * 10 ^ k, 1, hnum, Nat.one_pos, hvalue, ?_⟩
    rw [Int.toNat_natCast, if_neg (by omega : ¬ (k : Int) + (digits.log2 + 1) < -400), if_pos hsign]
    split_ifs with hlarge
    · exact (roundRatio_of_large hnum Nat.one_pos
        ((le_numeral hdigits hlarge).trans_eq hvalue.symm)).symm
    · rfl
  · obtain ⟨k, rfl⟩ : ∃ k : Nat, exponent = -k := ⟨exponent.natAbs, by omega⟩
    have hden : 0 < 10 ^ k := Nat.pow_pos (by decide)
    have hvalue : (digits : ℚ) / (10 ^ k : Nat) = digits * 10 ^ (-k : Int) := by
      rw [zpow_neg, zpow_natCast, div_eq_mul_inv]
      push_cast
      rfl
    refine ⟨digits, 10 ^ k, hdigits, hden, hvalue, ?_⟩
    rw [neg_neg, Int.toNat_natCast, if_neg (by omega : ¬ (400 : Int) < -k), if_neg hsign]
    split_ifs with hsmall
    · exact (roundRatio_of_small hdigits hden (hvalue.trans_lt (numeral_lt hdigits hsmall))).symm
    · rfl

theorem roundDecimal_mono {digits digits' : Nat} {exponent exponent' : Int}
    (h : (digits : ℚ) * 10 ^ exponent ≤ digits' * 10 ^ exponent') :
    roundDecimal digits exponent ≤ roundDecimal digits' exponent' := by
  rcases Nat.eq_zero_or_pos digits with rfl | hdigits
  · exact Nat.zero_le _
  · have hdigits' : 0 < digits' := by
      have hpos : (0 : ℚ) < digits * 10 ^ exponent := by positivity
      by_contra hzero
      rw [Nat.eq_zero_of_not_pos hzero] at h
      simp at h
      linarith
    obtain ⟨num, den, hnum, hden, hvalue, heq⟩ := roundDecimal_eq hdigits exponent
    obtain ⟨num', den', hnum', hden', hvalue', heq'⟩ := roundDecimal_eq hdigits' exponent'
    rw [heq, heq']
    exact roundRatio_mono hnum hden hnum' hden' (by rw [hvalue, hvalue']; exact h)

end Binary64

end CursorPaging
