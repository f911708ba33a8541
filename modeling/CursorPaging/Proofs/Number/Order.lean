import CursorPaging.Proofs.Number.Exact
import CursorPaging.Proofs.Table.Rows

/-!
# Numbers in order

Numeric keys compare by the numbers nearest to what they spell. Rounding never reverses two values,
so keys are in the order of their exact values wherever the nearest numbers differ; where these are
the same, the texts decide.

* `Decimal.value`: the exact value of a numeral; **`rank_le_of_value_lt`**: rounding keeps the
  order;
* `Spells`, `exists_spells_iff`: a text with a finite number; `order_of_same`, `order_eq_compare`:
  the order of two texts; `finite?_ne_of_integers`: integers up to `2 ^ 53` are told apart;
* `Agrees`, `agrees`: conditions on range values and walks that follow two exact values;
* **`numbers_order_by_value`**; `numbers_order_not_exact`: what fails where rounding makes two
  values the same.
-/

namespace CursorPaging

-- powers are those of the core library
attribute [local instance (10000)] instPowNat

/-- The exact value of a numeral, without its sign. -/
def Decimal.size (d : Decimal) : ℚ := d.digits * 10 ^ d.exponent

/-- The exact value of a numeral. -/
def Decimal.value (d : Decimal) : ℚ := if d.negative then -d.size else d.size

theorem Decimal.size_nonneg (d : Decimal) : 0 ≤ d.size := by
  unfold size
  positivity

theorem Decimal.abs_value (d : Decimal) : |d.value| = d.size := by
  unfold value
  split_ifs
  · rw [abs_neg, abs_of_nonneg d.size_nonneg]
  · rw [abs_of_nonneg d.size_nonneg]

namespace Binary64

variable {d e : Decimal} {x y z : String} {u v w : ℚ}

theorem magnitude_mono (h : d.size ≤ e.size) : (ofDecimal d).magnitude ≤ (ofDecimal e).magnitude :=
  roundDecimal_mono h

/-- **Rounding keeps the order.** -/
theorem rank_le_of_value_lt (h : d.value < e.value) : (ofDecimal d).rank ≤ (ofDecimal e).rank := by
  have hd := d.size_nonneg
  have he := e.size_nonneg
  unfold Decimal.value at h
  have hsigns :
      (ofDecimal d).negative = d.negative ∧ (ofDecimal e).negative = e.negative := ⟨rfl, rfl⟩
  unfold rank
  rw [hsigns.1, hsigns.2]
  split_ifs at h ⊢ with hneg hneg' hneg'
  · have hmono := magnitude_mono (d := e) (e := d) (by linarith)
    omega
  · omega
  · linarith
  · have hmono := magnitude_mono h.le
    omega

/-! ## Integers -/

theorem toRat_magnitude_of_size {m : Nat} (hsize : d.size = m) (hm : m ≤ 2 ^ (53 : Nat))
    (hfinite : (ofDecimal d).isFinite = true) : toRat (ofDecimal d).magnitude = m := by
  have hfinite' : roundDecimal d.digits d.exponent < infinity := of_decide_eq_true hfinite
  rw [ofDecimal]
  rcases Nat.eq_zero_or_pos d.digits with hzero | hdigits
  · have hvalue : (m : ℚ) = 0 := by
      rw [← hsize, Decimal.size, hzero]
      simp
    rw [hvalue, hzero]
    exact toRat_zero
  · obtain ⟨num, den, hnum, hden, hvalue, heq⟩ := roundDecimal_eq hdigits d.exponent
    rw [heq] at hfinite' ⊢
    exact toRat_roundRatio_of_nat hnum hden hfinite' (hvalue.trans hsize) hm

/-- The number that a finite value stands for. -/
def value (x : Binary64) : ℚ := if x.negative then -toRat x.magnitude else toRat x.magnitude

theorem value_ofDecimal_of_integer {m : Int} (hvalue : d.value = m)
    (hm : m.natAbs ≤ 2 ^ (53 : Nat)) (hfinite : (ofDecimal d).isFinite = true) :
    (ofDecimal d).value = m := by
  have hsize : d.size = m.natAbs := by
    rw [← d.abs_value, hvalue, Nat.cast_natAbs, Int.cast_abs]
  rw [value, toRat_magnitude_of_size hsize hm hfinite, ← hsize]
  exact hvalue

/-! ## Texts -/

/-- A text that spells a finite number, and its exact value. -/
def Spells (text : String) (value : ℚ) : Prop :=
  ∃ d, Decimal.ofText? text = some d ∧ d.value = value ∧ (ofDecimal d).isFinite = true

theorem Spells.finite?_eq (h : Spells x v) : ∃ d, finite? x = some (ofDecimal d) ∧ d.value = v ∧
    (ofDecimal d).isFinite = true := by
  obtain ⟨d, hd, hvalue, hfinite⟩ := h
  refine ⟨d, ?_, hvalue, hfinite⟩
  rw [finite?, hd]
  exact if_pos hfinite

theorem exists_spells_iff : (∃ v, Spells x v) ↔ (finite? x).isSome = true := by
  constructor
  · rintro ⟨v, hx⟩
    obtain ⟨d, hd, -⟩ := hx.finite?_eq
    rw [hd]
    rfl
  · intro h
    unfold finite? at h
    split at h
    · rename_i d hd
      split_ifs at h with hfinite
      · exact ⟨d.value, d, hd, rfl, hfinite⟩
      · cases h
    · cases h

theorem rank_injective {a b : Binary64} (h : a.rank = b.rank) : a = b := by
  obtain ⟨sign, m⟩ := a
  obtain ⟨sign', m'⟩ := b
  cases sign <;> cases sign' <;> simp [rank] at h ⊢ <;> omega

theorem order_of_same (h : finite? x = finite? y) :
    (Scalar.number x).order (.number y) = compare x y := by
  change Scalar.numberOrder x y = _
  cases hx : finite? x with
  | none => rw [Scalar.numberOrder_of_not_finite hx]
  | some a =>
    rw [Scalar.numberOrder_of_finite hx (h ▸ hx), Std.compare_self]
    rfl

theorem order_of_lt (hx : Spells x v) (hy : Spells y w) (hlt : v < w)
    (hne : finite? x ≠ finite? y) : (Scalar.number x).order (.number y) = .lt := by
  obtain ⟨d, hd, rfl, -⟩ := hx.finite?_eq
  obtain ⟨e, he, rfl, -⟩ := hy.finite?_eq
  have hle := rank_le_of_value_lt hlt
  have hrank : (ofDecimal d).rank ≠ (ofDecimal e).rank := fun heq => by
    rw [hd, he, rank_injective heq] at hne
    exact hne rfl
  change Scalar.numberOrder x y = _
  rw [Scalar.numberOrder_of_finite hd he, Ordering.then_eq_lt]
  exact .inl (Int.compare_eq_lt.2 (by omega))

/-- **Texts whose nearest numbers differ** are in the order of their exact values. -/
theorem order_eq_compare (hx : Spells x v) (hy : Spells y w) (hvw : v ≠ w)
    (hne : finite? x ≠ finite? y) : (Scalar.number x).order (.number y) = compare v w := by
  rcases lt_or_gt_of_ne hvw with hlt | hgt
  · rw [order_of_lt hx hy hlt hne, compare_lt_iff_lt.2 hlt]
  · rw [compare_gt_iff_gt.2 hgt, Scalar.order_gt_iff]
    exact order_of_lt hy hx hgt hne.symm

theorem finite?_ne_of_integers {m n : Int} (hx : Spells x m) (hy : Spells y n) (hmn : m ≠ n)
    (hm : m.natAbs ≤ 2 ^ (53 : Nat)) (hn : n.natAbs ≤ 2 ^ (53 : Nat)) : finite? x ≠ finite? y := by
  obtain ⟨d, hd, hvalue, hfinite⟩ := hx.finite?_eq
  obtain ⟨e, he, hvalue', hfinite'⟩ := hy.finite?_eq
  rw [hd, he]
  intro hsame
  have hround := value_ofDecimal_of_integer hvalue hm hfinite
  rw [Option.some.inj hsame, value_ofDecimal_of_integer hvalue' hn hfinite'] at hround
  exact hmn (by exact_mod_cast hround.symm)

/-! ## Conditions and walks -/

/-- Two numeric keys are in the order of two values, in conditions on range values and in walks
too. -/
structure Agrees (x y : String) (v w : ℚ) : Prop where
  order : (Scalar.number x).order (.number y) = compare v w
  below : (RangeCondition.below (.number y)).holds (.number x) = true ↔ v < w
  atMost : (RangeCondition.atMost (.number y)).holds (.number x) = true ↔ v ≤ w
  above : (RangeCondition.above (.number y)).holds (.number x) = true ↔ w < v
  atLeast : (RangeCondition.atLeast (.number y)).holds (.number x) = true ↔ w ≤ v
  between : ∀ {z : String} {u : ℚ}, Spells z u → v ≠ u → finite? x ≠ finite? z →
    ((RangeCondition.between (.number y) (.number z)).holds (.number x) = true ↔ w ≤ v ∧ v ≤ u)
  ascending : ∀ {t : Table}, t.Reached → ∀ hash start,
    (Table.walk (t.partition hash) start true).Pairwise fun a b =>
      a.1 = .number x → b.1 = .number y → v < w
  descending : ∀ {t : Table}, t.Reached → ∀ hash start,
    (Table.walk (t.partition hash) start false).Pairwise fun a b =>
      a.1 = .number x → b.1 = .number y → w < v

theorem agrees (hx : Spells x v) (hy : Spells y w) (hvw : v ≠ w) (hne : finite? x ≠ finite? y) :
    Agrees x y v w := by
  have horder := order_eq_compare hx hy hvw hne
  have horder' := order_eq_compare hy hx hvw.symm hne.symm
  refine ⟨horder, ?_, ?_, ?_, ?_, ?_, ?_, ?_⟩
  · rw [RangeCondition.holds, horder]
    exact Ordering.isLT_iff_eq_lt.trans compare_lt_iff_lt
  · rw [RangeCondition.holds, horder]
    exact Ordering.isLE_iff_ne_gt.trans compare_le_iff_le
  · rw [RangeCondition.holds, horder]
    exact Ordering.isGT_iff_eq_gt.trans compare_gt_iff_gt
  · rw [RangeCondition.holds, horder]
    exact Ordering.isGE_iff_ne_lt.trans compare_ge_iff_ge
  · intro z u hz hvu hxz
    rw [RangeCondition.holds, horder', order_eq_compare hx hz hvu hxz, Bool.and_eq_true]
    exact and_congr (Ordering.isLE_iff_ne_gt.trans compare_le_iff_le)
      (Ordering.isLE_iff_ne_gt.trans compare_le_iff_le)
  · intro t ht hash start
    refine (Table.walk_pairwise ht.wellFormed hash start).1.imp fun {a b} hab ha hb => ?_
    rw [ha, hb, horder] at hab
    exact compare_lt_iff_lt.1 hab
  · intro t ht hash start
    refine (Table.walk_pairwise ht.wellFormed hash start).2.imp fun {a b} hab ha hb => ?_
    rw [ha, hb, horder'] at hab
    exact compare_lt_iff_lt.1 hab

/-- **Numbers order by value up to rounding**: by their exact values if the numbers nearest to them
differ, as they do for integers up to `2 ^ 53`, and else by their texts. -/
theorem numbers_order_by_value (x y : String) :
    ((finite? x).isSome = true ↔ ∃ v, Spells x v) ∧
    ∀ v w : ℚ, Spells x v → Spells y w → v ≠ w →
      (finite? x ≠ finite? y → Agrees x y v w) ∧
      (finite? x = finite? y → (Scalar.number x).order (.number y) = compare x y) ∧
      ∀ m n : Int, v = m → w = n → m.natAbs ≤ 2 ^ (53 : Nat) → n.natAbs ≤ 2 ^ (53 : Nat) →
        finite? x ≠ finite? y := by
  refine ⟨exists_spells_iff.symm, fun v w hx hy hvw => ⟨agrees hx hy hvw, order_of_same, ?_⟩⟩
  rintro m n rfl rfl hm hn
  exact finite?_ne_of_integers hx hy (fun h => hvw (congrArg _ h)) hm hn

theorem numbers_order_by_value_nine_ten :
    Agrees "9" "10" 9 10 := by
  have hnine : Spells "9" 9 :=
    ⟨⟨false, 9, 0⟩, by decide +kernel, by norm_num [Decimal.value, Decimal.size], by decide +kernel⟩
  have hten : Spells "10" 10 :=
    ⟨⟨false, 10, 0⟩, by decide +kernel, by norm_num [Decimal.value, Decimal.size],
      by decide +kernel⟩
  exact ((numbers_order_by_value "9" "10").2 9 10 hnine hten (by norm_num)).1 (by decide +kernel)

/-- The number nearest to `9999999999999999` is `10000000000000000`, whose text is the smaller. -/
theorem numbers_order_not_exact :
    (¬ ∀ (x y : String) (v w : ℚ), Spells x v → Spells y w → v < w →
      (Scalar.number x).order (.number y) = .lt) ∧
    (RangeCondition.below (.number "10000000000000000")).holds (.number "9999999999999999") =
      false := by
  refine ⟨fun h => ?_, by decide +kernel⟩
  have hx : Spells "9999999999999999" 9999999999999999 :=
    ⟨⟨false, 9999999999999999, 0⟩, by decide +kernel, by norm_num [Decimal.value, Decimal.size],
      by decide +kernel⟩
  have hy : Spells "10000000000000000" 10000000000000000 :=
    ⟨⟨false, 10000000000000000, 0⟩, by decide +kernel, by norm_num [Decimal.value, Decimal.size],
      by decide +kernel⟩
  exact absurd (h _ _ _ _ hx hy (by norm_num)) (by decide +kernel)

end Binary64

end CursorPaging
