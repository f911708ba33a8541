import Mathlib.Data.List.TakeWhile
import CursorPaging.Number.Shortest
import CursorPaging.Proofs.Number.Order

/-!
# Natural numbers as texts

The text of a natural number is read as the number nearest to it. Below `2 ^ 53` that number is
printed as the same text: no other natural number rounds to it, so the search for the fewest digits
ends with its own digits.

* `Decimal.ofText?_toString`, **`Binary64.finite?_toString`**: such texts are numbers;
* `Interval.Isolates`: an interval around a natural number and no other;
  `isolates_interval`: that of the nearest number;
* `contains_iff`, `nearest?_eq`: the grids that meet the number; `search_value`: the search ends at
  it;
* `stripZeros_value`, `positional_eq`: dropping zeros, and writing them;
* **`Binary64.text_of_nat`**.
-/

namespace CursorPaging

-- powers are those of the core library
attribute [local instance (10000)] instPowNat

/-! ## Reading -/

theorem Decimal.natOfDigits_toDigits (n : Nat) : natOfDigits (Nat.toDigits 10 n) = n := by
  have hread : Nat.ofDigitChars 10 (Nat.toDigits 10 n) 0 = n := Nat.ofDigitChars_ten_toDigits
  unfold Nat.ofDigitChars at hread
  simp only [Nat.mul_comm 10] at hread
  exact hread

theorem Decimal.takeSign_of_isDigit {text : List Char} (h : ∀ c ∈ text, c.isDigit = true) :
    takeSign text = (false, text) := by
  unfold takeSign
  split
  · exact absurd (h '-' List.mem_cons_self) (by decide)
  · exact absurd (h '+' List.mem_cons_self) (by decide)
  · rfl

theorem Decimal.ofText?_toString (n : Nat) : ofText? (toString n) = some ⟨false, n, 0⟩ := by
  have hdigits : ∀ c ∈ Nat.toDigits 10 n, c.isDigit = true :=
    fun c hc => Nat.isDigit_of_mem_toDigits (by decide) (by decide) hc
  rw [ofText?, Nat.toString_eq_ofList_toDigits, String.toList_ofList, takeSign_of_isDigit hdigits]
  simp [List.takeWhile_eq_self_iff.2 hdigits, List.dropWhile_eq_nil_iff.2 hdigits, takeFraction,
    exponent?, natOfDigits_toDigits, Nat.toDigits_ne_nil]

/-- **Words of 64 bits are finite numbers.** -/
theorem Binary64.isFinite_of_word {n : Nat} (h : n < 2 ^ (64 : Nat)) :
    (ofDecimal ⟨false, n, 0⟩).isFinite = true := by
  have hsize : (n : ℚ) * 10 ^ (0 : Int) ≤ (2 ^ (64 : Nat) : Nat) * 10 ^ (0 : Int) := by
    rw [zpow_zero, mul_one, mul_one]
    exact_mod_cast h.le
  have hlarge : roundDecimal (2 ^ (64 : Nat)) 0 < infinity := by decide +kernel
  exact decide_eq_true (Nat.lt_of_le_of_lt (roundDecimal_mono hsize) hlarge)

theorem Binary64.finite?_toString {n : Nat} (h : n < 2 ^ (64 : Nat)) :
    finite? (toString n) = some (ofDecimal ⟨false, n, 0⟩) := by
  rw [finite?, Decimal.ofText?_toString]
  exact if_pos (isFinite_of_word h)

namespace Shortest

/-- An interval around a natural number that reaches neither of its neighbours. -/
structure Interval.Isolates (i : Interval) (n : Nat) : Prop where
  den_pos : 0 < i.den
  value_eq : i.value = n * i.den
  low_lt : i.low < i.value
  lt_low : i.value < i.low + i.den
  lt_high : i.value < i.high
  high_lt : i.high < i.value + i.den

variable {i : Interval} {n k point : Nat}

/-! ## The search -/

theorem Interval.Isolates.contains_iff (h : i.Isolates n) :
    i.contains point (k : Int) = true ↔ point * 10 ^ k = n := by
  obtain ⟨hden, hvalue, hlow, hlow', hhigh, hhigh'⟩ := h
  simp only [Interval.contains, if_pos (Int.natCast_nonneg k), Int.toNat_natCast, Nat.mul_one]
  generalize point * 10 ^ k = m
  constructor
  · intro hinside
    have hbounds : i.low ≤ m * i.den ∧ m * i.den ≤ i.high := by
      split_ifs at hinside <;> simp at hinside <;> omega
    have hle : n < m + 1 := by
      refine Nat.lt_of_mul_lt_mul_right (a := i.den) ?_
      rw [Nat.succ_mul]
      omega
    have hge : m < n + 1 := by
      refine Nat.lt_of_mul_lt_mul_right (a := i.den) ?_
      rw [Nat.succ_mul]
      omega
    omega
  · rintro rfl
    rw [← hvalue]
    split_ifs <;> simp <;> omega

/-- A grid meets the interval exactly if the natural number is on it. -/
theorem Interval.Isolates.nearest?_eq (h : i.Isolates n) (k : Nat) :
    i.nearest? k = if 10 ^ k ∣ n then some (n / 10 ^ k) else none := by
  have hup : i.contains (n / 10 ^ k + 1) k = false := by
    have hgrid : 0 < 10 ^ k := Nat.pow_pos (by decide)
    have hbeyond := Nat.lt_div_mul_add hgrid (a := n)
    rw [Bool.eq_false_iff, ne_eq, h.contains_iff, Nat.succ_mul]
    omega
  unfold Interval.nearest?
  rcases haround : i.around k with ⟨⟨down, downBy⟩, up, upBy⟩
  simp only [Interval.around, if_pos (Int.natCast_nonneg k), Int.toNat_natCast, Prod.mk.injEq,
    h.value_eq, Nat.mul_comm i.den, Nat.mul_div_mul_right _ _ h.den_pos] at haround
  obtain ⟨⟨rfl, -⟩, rfl, -⟩ := haround
  dsimp only
  rw [hup]
  by_cases hdvd : 10 ^ k ∣ n
  · rw [h.contains_iff.2 (Nat.div_mul_cancel hdvd), if_pos hdvd]
  · have hdown : i.contains (n / 10 ^ k) k = false := by
      rw [Bool.eq_false_iff, ne_eq, h.contains_iff]
      exact fun heq => hdvd ⟨_, heq.symm.trans (Nat.mul_comm ..)⟩
    rw [hdown, if_neg hdvd]

/-- **The search ends at the natural number.** -/
theorem Interval.Isolates.search_value (h : i.Isolates n) : ∀ {steps k : Nat}, k < steps →
    ∃ d p : Nat, i.search steps k = (d, (p : Int)) ∧ d * 10 ^ p = n
  | 0, k, hsteps => absurd hsteps (Nat.not_lt_zero k)
  | steps + 1, k, hsteps => by
    rw [Interval.search, h.nearest?_eq]
    split_ifs with hdvd
    · exact ⟨n / 10 ^ k, k, rfl, Nat.div_mul_cancel hdvd⟩
    · obtain ⟨k, rfl⟩ : ∃ j, k = j + 1 :=
        Nat.exists_eq_succ_of_ne_zero (by rintro rfl; simp at hdvd)
      obtain ⟨d, p, hsearch, hvalue⟩ := h.search_value (Nat.lt_of_succ_lt_succ hsteps)
      refine ⟨d, p, ?_, hvalue⟩
      rw [← hsearch, Int.natCast_succ, Int.add_sub_cancel]

/-! ## The notation -/

theorem stripZeros_value : ∀ (steps d p : Nat),
    ∃ d' p' : Nat, stripZeros steps (d, (p : Int)) = (d', (p' : Int)) ∧ d' * 10 ^ p' = d * 10 ^ p
  | 0, d, p => ⟨d, p, rfl, rfl⟩
  | steps + 1, d, p => by
    rw [stripZeros]
    split_ifs with hzero
    · obtain ⟨d', p', hstrip, hvalue⟩ := stripZeros_value steps (d / 10) (p + 1)
      refine ⟨d', p', hstrip, hvalue.trans ?_⟩
      rw [Nat.pow_succ, Nat.mul_comm (10 ^ p), ← Nat.mul_assoc, Nat.div_mul_cancel
        (Nat.dvd_of_mod_eq_zero hzero)]
    · exact ⟨d, p, rfl, rfl⟩

theorem toDigits_mul_pow {d : Nat} (hd : 0 < d) : ∀ p : Nat,
    Nat.toDigits 10 (d * 10 ^ p) = Nat.toDigits 10 d ++ List.replicate p '0'
  | 0 => by simp
  | p + 1 => by
    have hlast := Nat.toDigits_append_toDigits (b := 10) (n := d * 10 ^ p) (d := 0) (by decide)
      (Nat.mul_pos hd (Nat.pow_pos (by decide))) (by decide)
    rw [Nat.pow_succ, ← Nat.mul_assoc, Nat.mul_comm _ 10, ← Nat.add_zero (10 * _), ← hlast,
      toDigits_mul_pow hd p, List.append_assoc, List.replicate_succ']
    rfl

/-- **The notation of a natural number** is its digits. -/
theorem positional_eq {d : Nat} (hd : 0 < d) (p : Nat) :
    positional d p = toString (d * 10 ^ p) := by
  rw [Nat.toString_eq_ofList_toDigits, toDigits_mul_pow hd, positional,
    if_pos (Int.natCast_nonneg p), Int.toNat_natCast]

/-! ## Natural numbers that are not rounded -/

theorem decimalLength_le (h : n < 2 ^ (53 : Nat)) : decimalLength n ≤ 16 :=
  (Nat.length_toDigits_le_iff (by decide) (by decide)).2 (h.trans (by decide))

theorem digits_value {magnitude : Nat} (h : (interval magnitude).Isolates n) (hpos : 0 < n)
    (hsmall : n < 2 ^ (53 : Nat)) :
    ∃ d p : Nat, digits magnitude = (d, (p : Int)) ∧ d * 10 ^ p = n := by
  have hlength : 0 < decimalLength n := Nat.length_toDigits_pos
  have hlength' := decimalLength_le hsmall
  have htop : (interval magnitude).top - 1 = (decimalLength n - 1 : Nat) := by
    have hle : (interval magnitude).den ≤ (interval magnitude).value := by
      rw [h.value_eq]
      exact Nat.le_mul_of_pos_left _ hpos
    rw [Interval.top, if_pos hle, h.value_eq, Nat.mul_div_cancel _ h.den_pos]
    omega
  obtain ⟨d, p, hsearch, hvalue⟩ :=
    h.search_value (show decimalLength n - 1 < 17 by omega)
  obtain ⟨d', p', hstrip, hvalue'⟩ := stripZeros_value 17 d p
  refine ⟨d', p', ?_, hvalue'.trans hvalue⟩
  rw [digits, htop, hsearch, hstrip]

end Shortest

namespace Binary64

variable {magnitude n : Nat}

/-- A number that is a natural number below `2 ^ 53` has units of one at most. -/
theorem exists_significand_eq (hvalue : toRat magnitude = n) (hsmall : n < 2 ^ (53 : Nat)) :
    ∃ places : Nat, unit magnitude = -places ∧ significand magnitude = n * 2 ^ places := by
  have hunit : unit magnitude ≤ 0 := by
    by_contra hlarge
    have hbits : 2 ^ (52 : Nat) ≤ significand magnitude := by
      unfold unit at hlarge
      unfold significand
      split_ifs <;> omega
    have hstep : (2 : ℚ) ^ (1 : Int) ≤ 2 ^ unit magnitude :=
      zpow_le_zpow_right₀ one_le_two (by omega)
    have htoRat : ((2 ^ (53 : Nat) : Nat) : ℚ) ≤ toRat magnitude := by
      calc ((2 ^ (53 : Nat) : Nat) : ℚ) = (2 ^ (52 : Nat) : Nat) * 2 ^ (1 : Int) := by norm_num
        _ ≤ significand magnitude * 2 ^ unit magnitude :=
          mul_le_mul (Nat.cast_le.2 hbits) hstep (by positivity) (by positivity)
    rw [hvalue, Nat.cast_le] at htoRat
    omega
  obtain ⟨places, hplaces⟩ : ∃ places : Nat, unit magnitude = -places :=
    ⟨(unit magnitude).natAbs, by omega⟩
  refine ⟨places, hplaces, ?_⟩
  rw [toRat, hplaces, zpow_neg, zpow_natCast, ← div_eq_mul_inv,
    div_eq_iff (by positivity)] at hvalue
  exact_mod_cast hvalue

/-- **No other natural number rounds** to one below `2 ^ 53`. -/
theorem isolates_interval (hvalue : toRat magnitude = n) (hpos : 0 < n)
    (hsmall : n < 2 ^ (53 : Nat)) : (Shortest.interval magnitude).Isolates n := by
  obtain ⟨places, hunit, hsignificand⟩ := exists_significand_eq hvalue hsmall
  have hpower : ¬ 0 ≤ unit magnitude - 2 := by omega
  have hden : (-(unit magnitude - 2)).toNat = places + 2 := by omega
  have hwidth : 0 < 2 ^ places := Nat.pow_pos (by decide)
  have hbits : 0 < n * 2 ^ places := Nat.mul_pos hpos hwidth
  have hdenominator : 2 ^ (places + 2) = 2 ^ places * 4 := Nat.pow_add ..
  unfold Shortest.interval
  simp only [if_neg hpower, hden, hsignificand, hdenominator]
  generalize hm : n * 2 ^ places = m at hbits ⊢
  constructor <;> dsimp only
  case value_eq =>
    rw [← hm]
    ring
  case low_lt | lt_low => split_ifs <;> omega
  all_goals omega

/-- **Natural numbers below `2 ^ 53` are printed** as they are. -/
theorem text_of_nat (h : n < 2 ^ (53 : Nat)) : (ofDecimal ⟨false, n, 0⟩).text = toString n := by
  have hfinite := isFinite_of_word (h.trans (by decide) : n < 2 ^ (64 : Nat))
  have hlt : (ofDecimal ⟨false, n, 0⟩).magnitude < infinity := of_decide_eq_true hfinite
  have hvalue : toRat (ofDecimal ⟨false, n, 0⟩).magnitude = n :=
    toRat_magnitude_of_size (by simp [Decimal.size]) h.le hfinite
  rw [text, if_neg (Nat.lt_asymm hlt), if_neg (Nat.ne_of_lt hlt)]
  rcases Nat.eq_zero_or_pos n with rfl | hpos
  · rfl
  · have hsome : (ofDecimal ⟨false, n, 0⟩).magnitude ≠ 0 := by
      intro hzero
      rw [hzero, toRat_zero] at hvalue
      exact hpos.ne (by exact_mod_cast hvalue)
    obtain ⟨d, p, hdigits, hd⟩ :=
      Shortest.digits_value (isolates_interval hvalue hpos h) hpos h
    have hd' : 0 < d := Nat.pos_of_mul_pos_right (hd ▸ hpos)
    rw [if_neg hsome, hdigits, ← hd]
    exact String.empty_append.trans (Shortest.positional_eq hd' p)

end Binary64

end CursorPaging
