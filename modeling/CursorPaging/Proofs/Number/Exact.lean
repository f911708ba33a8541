import CursorPaging.Proofs.Number.Rounding

/-!
# Exact values

What a finite magnitude stands for, and numbers that are not changed by rounding. Natural numbers up
to `2 ^ 53` are among them.

* `toRat`, `toRat_place`: a magnitude stands for its number of units;
* `toRat_roundRatio`: a ratio is rounded to a number of its units; `toRat_roundRatio_of_units`: it
  is not changed if it is one;
* **`toRat_roundRatio_of_nat`**: natural numbers up to `2 ^ 53`.
-/

namespace CursorPaging

-- powers are those of the core library
attribute [local instance (10000)] instPowNat

namespace Binary64

variable {num den kept : Nat} {power : Int}

/-- The number that a finite magnitude stands for. -/
def toRat (magnitude : Nat) : ℚ := significand magnitude * 2 ^ unit magnitude

theorem toRat_zero : toRat 0 = 0 := by
  simp [toRat, significand]

/-- A significand that rounds up to one bit more is that of the next unit. -/
theorem toRat_place (hpower : -1074 ≤ power) (hkept : kept ≤ 2 ^ (53 : Nat))
    (hnormal : power = -1074 ∨ 2 ^ (52 : Nat) ≤ kept) :
    toRat (place power kept) = kept * 2 ^ power := by
  obtain ⟨steps, hsteps⟩ : ∃ steps : Nat, power + 1074 = steps := ⟨(power + 1074).toNat, by omega⟩
  have hplace : place power kept = steps * 2 ^ (52 : Nat) + kept := by
    rw [place, hsteps, Int.toNat_natCast]
  by_cases hsub : kept < 2 ^ (52 : Nat)
  · have hzero : steps = 0 := by omega
    have hunit : unit kept = power := by
      unfold unit
      omega
    rw [hplace, hzero, Nat.zero_mul, Nat.zero_add, toRat, hunit, significand, if_pos hsub]
  · by_cases hcarry : kept = 2 ^ (53 : Nat)
    · have hunit : unit (place power kept) = power + 1 := by
        rw [hplace]
        unfold unit
        omega
      have hsignificand : significand (place power kept) = 2 ^ (52 : Nat) := by
        rw [hplace]
        unfold significand
        split_ifs <;> omega
      rw [toRat, hunit, hsignificand, hcarry, zpow_add_one₀ two_ne_zero]
      push_cast
      ring
    · have hunit : unit (place power kept) = power := by
        rw [hplace]
        unfold unit
        omega
      have hsignificand : significand (place power kept) = kept := by
        rw [hplace]
        unfold significand
        split_ifs <;> omega
      rw [toRat, hunit, hsignificand]

theorem toRat_roundRatio (hnum : 0 < num) (hden : 0 < den)
    (hfinite : roundRatio num den < infinity) :
    ∃ n d : Nat, 0 < d ∧ (n : ℚ) / d = (num : ℚ) / den / 2 ^ unitOf ((num : ℚ) / den) ∧
      toRat (roundRatio num den) = roundHalfEven n d * 2 ^ unitOf ((num : ℚ) / den) := by
  obtain ⟨n, d, hd, hn, heq⟩ := roundRatio_eq hnum hden
  refine ⟨n, d, hd, hn, ?_⟩
  have hplace : roundRatio num den =
      place (unitOf ((num : ℚ) / den)) (roundHalfEven n d) := by
    rw [heq] at hfinite ⊢
    omega
  rw [hplace]
  have hx : (0 : ℚ) < num / den := by positivity
  generalize (num : ℚ) / den = x at *
  refine toRat_place (le_max_right _ _) (roundHalfEven_le hd ?_) ?_
  · rw [hn]
    exact (units_lt x).le
  · by_cases hunit : unitOf x = -1074
    · exact .inl hunit
    · exact .inr (le_roundHalfEven hd (by rw [hn]; exact le_units hx hunit))

theorem toRat_roundRatio_of_units (hnum : 0 < num) (hden : 0 < den)
    (hfinite : roundRatio num den < infinity) {k : Nat}
    (hk : (num : ℚ) / den / 2 ^ unitOf ((num : ℚ) / den) = k) :
    toRat (roundRatio num den) = num / den := by
  obtain ⟨n, d, hd, hn, heq⟩ := toRat_roundRatio hnum hden hfinite
  have hround : roundHalfEven n d = k :=
    le_antisymm (roundHalfEven_le hd (hn.trans hk).le) (le_roundHalfEven hd (hn.trans hk).ge)
  rw [heq, hround, ← hk]
  exact div_mul_cancel₀ _ (by positivity)

/-- **Natural numbers up to `2 ^ 53` are not changed by rounding.** -/
theorem toRat_roundRatio_of_nat {m : Nat} (hnum : 0 < num) (hden : 0 < den)
    (hfinite : roundRatio num den < infinity) (hvalue : (num : ℚ) / den = m)
    (hm : m ≤ 2 ^ (53 : Nat)) : toRat (roundRatio num den) = m := by
  have hpos : (0 : ℚ) < m := by
    rw [← hvalue]
    positivity
  have hlog : Int.log 2 (m : ℚ) < 54 := by
    rw [← Int.lt_zpow_iff_log_lt (by decide) hpos]
    have hlt : m < 2 ^ (54 : Nat) := by omega
    exact_mod_cast hlt
  suffices hunits : ∃ k : Nat, (num : ℚ) / den / 2 ^ unitOf ((num : ℚ) / den) = k by
    obtain ⟨k, hk⟩ := hunits
    rw [toRat_roundRatio_of_units hnum hden hfinite hk, hvalue]
  rw [hvalue]
  by_cases hunit : unitOf (m : ℚ) ≤ 0
  · -- the last bit counts no more than one
    obtain ⟨k, hk⟩ : ∃ k : Nat, unitOf (m : ℚ) = -k := ⟨(unitOf (m : ℚ)).natAbs, by omega⟩
    refine ⟨m * 2 ^ k, ?_⟩
    rw [hk, zpow_neg, zpow_natCast, div_inv_eq_mul]
    push_cast
    rfl
  · -- only the largest of them has one bit more
    have hunit' : unitOf (m : ℚ) = 1 := by
      unfold unitOf at hunit ⊢
      omega
    have hlarge : 2 ^ (53 : Nat) ≤ m := by
      have hle : (2 : ℚ) ^ (53 : Int) ≤ m := by
        refine (Int.zpow_le_iff_le_log (b := 2) (by decide) hpos).2 ?_
        unfold unitOf at hunit'
        omega
      exact_mod_cast hle
    refine ⟨2 ^ (52 : Nat), ?_⟩
    rw [hunit', show m = 2 ^ (53 : Nat) by omega]
    norm_num

end Binary64

end CursorPaging
