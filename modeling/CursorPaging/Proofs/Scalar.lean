import CursorPaging.Scalar

/-!
# The order of scalars

Equality and reversal hold of the order of all scalars. It is transitive where all numbers are texts
that spell finite numbers, or none is; only such numbers are compared by value.

* `IsKey`: the values that keys are made of; `Sound`: scalars without other numbers;
* `order_eq_iff`, `order_swap`;
* `Alike`, **`order_lt_trans_of_alike`**: where the order is transitive; `order_lt_trans`: so on
  sound scalars.
-/

namespace CursorPaging

namespace Scalar

/-- Texts, and numbers that spell a finite number. -/
def IsKey : Scalar → Prop
  | .text _ => True
  | .number digits => (Binary64.finite? digits).isSome = true
  | _ => False

instance : DecidablePred IsKey := fun s => by
  cases s <;> unfold IsKey <;> infer_instance

/-- No number that spells no finite number. -/
def Sound : Scalar → Prop
  | .number digits => (Binary64.finite? digits).isSome = true
  | _ => True

theorem IsKey.sound : ∀ {s : Scalar}, s.IsKey → s.Sound
  | .text _, _ => trivial
  | .number _, h => h

theorem sound_null : Sound .null := trivial

/-! ## Numbers -/

theorem numberOrder_of_finite {a b : String} {x y : Binary64} (ha : Binary64.finite? a = some x)
    (hb : Binary64.finite? b = some y) :
    numberOrder a b = (compare x.rank y.rank).then (compare a b) := by
  rw [numberOrder, ha, hb]
  rfl

theorem numberOrder_eq_iff {a b : String} : numberOrder a b = .eq ↔ a = b := by
  unfold numberOrder
  split
  · rename_i x y hx hy
    rw [Ordering.then_eq_eq, Std.compare_eq_iff_eq]
    refine ⟨fun h => h.2, ?_⟩
    rintro rfl
    obtain rfl := Option.some.inj (hx.symm.trans hy)
    exact ⟨Std.compare_eq_iff_eq.2 rfl, rfl⟩
  · exact Std.compare_eq_iff_eq

theorem numberOrder_swap (a b : String) : (numberOrder a b).swap = numberOrder b a := by
  unfold numberOrder
  cases Binary64.finite? a <;> cases Binary64.finite? b <;>
    simp only [Ordering.swap_then, Binary64.order, ← Std.OrientedCmp.eq_swap]

theorem numberOrder_of_not_finite {a : String} (ha : Binary64.finite? a = none) (b : String) :
    numberOrder a b = compare a b := by
  rw [numberOrder, ha]

/-- The order of three numbers is transitive if all of them are compared by value, or none is. -/
theorem numberOrder_lt_trans {a b c : String}
    (hab' : (Binary64.finite? a).isSome = (Binary64.finite? b).isSome)
    (hbc' : (Binary64.finite? b).isSome = (Binary64.finite? c).isSome)
    (hab : numberOrder a b = .lt) (hbc : numberOrder b c = .lt) : numberOrder a c = .lt := by
  cases hx : Binary64.finite? a with
  | none =>
    have hy : Binary64.finite? b = none := by simpa [hx] using hab'
    rw [numberOrder_of_not_finite hx] at hab ⊢
    rw [numberOrder_of_not_finite hy] at hbc
    exact Std.TransCmp.lt_trans hab hbc
  | some x =>
    obtain ⟨y, hy⟩ : ∃ y, Binary64.finite? b = some y := by
      rw [← Option.isSome_iff_exists, ← hab', hx, Option.isSome_some]
    obtain ⟨z, hz⟩ : ∃ z, Binary64.finite? c = some z := by
      rw [← Option.isSome_iff_exists, ← hbc', hy, Option.isSome_some]
    rw [numberOrder_of_finite hx hy, Ordering.then_eq_lt] at hab
    rw [numberOrder_of_finite hy hz, Ordering.then_eq_lt] at hbc
    rw [numberOrder_of_finite hx hz, Ordering.then_eq_lt]
    rcases hab with hab | ⟨hab, hab'⟩ <;> rcases hbc with hbc | ⟨hbc, hbc'⟩
    · exact Or.inl (Std.TransCmp.lt_trans hab hbc)
    · exact Or.inl (Std.TransCmp.lt_of_lt_of_eq hab hbc)
    · exact Or.inl (Std.TransCmp.lt_of_eq_of_lt hab hbc)
    · exact Or.inr ⟨Std.TransCmp.eq_trans hab hbc, Std.TransCmp.lt_trans hab' hbc'⟩

/-! ## All scalars -/

theorem Kind.rank_injective {a b : Kind} (h : a.rank = b.rank) : a = b := by
  cases a <;> cases b <;> first | rfl | exact absurd h (by decide)

theorem order_of_kind_ne {a b : Scalar} (h : a.kind ≠ b.kind) :
    a.order b = compare a.kind.rank b.kind.rank := by
  cases a <;> cases b <;> first | rfl | exact absurd rfl h

theorem order_eq_iff {a b : Scalar} : a.order b = .eq ↔ a = b := by
  by_cases hkind : a.kind = b.kind
  · cases a <;> cases b <;> cases hkind <;>
      simp only [order, numberOrder_eq_iff, Std.compare_eq_iff_eq, number.injEq,
        text.injEq, bytes.injEq, boolean.injEq]
  · rw [order_of_kind_ne hkind, Std.compare_eq_iff_eq]
    exact ⟨fun h => absurd (Kind.rank_injective h) hkind, fun h => absurd (h ▸ rfl) hkind⟩

theorem order_self (a : Scalar) : a.order a = .eq := order_eq_iff.2 rfl

theorem order_swap (a b : Scalar) : (a.order b).swap = b.order a := by
  cases a <;> cases b <;> simp only [order, numberOrder_swap, ← Std.OrientedCmp.eq_swap]

theorem order_gt_iff {a b : Scalar} : a.order b = .gt ↔ b.order a = .lt := by
  rw [← order_swap b a, Ordering.swap_eq_gt]

theorem rank_le_of_order_lt {a b : Scalar} (h : a.order b = .lt) : a.kind.rank ≤ b.kind.rank := by
  by_cases hkind : a.kind = b.kind
  · exact Nat.le_of_eq (congrArg Kind.rank hkind)
  · rw [order_of_kind_ne hkind, Nat.compare_eq_lt] at h
    exact Nat.le_of_lt h

/-- Two scalars are alike unless they are numbers of which only one spells a finite number. -/
def Alike : Scalar → Scalar → Prop
  | .number a, .number b => (Binary64.finite? a).isSome = (Binary64.finite? b).isSome
  | _, _ => True

instance (a b : Scalar) : Decidable (a.Alike b) := by
  cases a <;> cases b <;> unfold Alike <;> infer_instance

theorem Sound.alike {a b : Scalar} (ha : a.Sound) (hb : b.Sound) : a.Alike b := by
  cases a <;> cases b <;> first | exact trivial | exact Eq.trans ha (Eq.symm hb)

/-- **The order is transitive where neighbours are alike.** -/
theorem order_lt_trans_of_alike {a b c : Scalar} (hab' : a.Alike b) (hbc' : b.Alike c)
    (hab : a.order b = .lt) (hbc : b.order c = .lt) : a.order c = .lt := by
  have hab_rank := rank_le_of_order_lt hab
  have hbc_rank := rank_le_of_order_lt hbc
  by_cases hrank : a.kind.rank = c.kind.rank
  · -- all three are of one kind
    have hkind : a.kind = b.kind := Kind.rank_injective (by omega)
    have hkind' : b.kind = c.kind := Kind.rank_injective (by omega)
    cases a <;> cases b <;> cases hkind <;> cases c <;> cases hkind' <;>
      simp only [order] at hab hbc ⊢
    · exact hab
    · exact Std.TransCmp.lt_trans hab hbc
    · exact numberOrder_lt_trans hab' hbc' hab hbc
    · exact Std.TransCmp.lt_trans hab hbc
    · exact Std.TransCmp.lt_trans hab hbc
  · rw [order_of_kind_ne fun h => hrank (congrArg Kind.rank h), Nat.compare_eq_lt]
    omega

/-- **The order is transitive on sound scalars.** -/
theorem order_lt_trans {a b c : Scalar} (ha : a.Sound) (hb : b.Sound) (hc : c.Sound)
    (hab : a.order b = .lt) (hbc : b.order c = .lt) : a.order c = .lt :=
  order_lt_trans_of_alike (ha.alike hb) (hb.alike hc) hab hbc

end Scalar

end CursorPaging
