import Mathlib.Tactic.IntervalCases
import CursorPaging.CommandLine.Demo
import CursorPaging.Proofs.Number.Shortest

/-!
# Ids of the seed

All ids are as long as the last one, so they are in the order of their indices, digit by digit.

* `padded_succ`: the last digit of a padded number; `length_padded`, **`padded_lt_padded`**;
* `length_rowId`, **`rowId_lt_rowId`**: ids in the order of scalars.
-/

namespace CursorPaging

-- powers are those of the core library
attribute [local instance (10000)] instPowNat

namespace Demo

variable {i j n rows width : Nat}

theorem padded_of_lt_ten (h : n < 10) (width : Nat) :
    padded (width + 1) n = List.replicate width '0' ++ [n.digitChar] := by
  simp [padded, Nat.toDigits_of_lt_base h]

theorem padded_succ (n : Nat) (hwidth : 0 < width) :
    padded (width + 1) n = padded width (n / 10) ++ [(n % 10).digitChar] := by
  by_cases h : n < 10
  · obtain ⟨k, rfl⟩ := Nat.exists_eq_succ_of_ne_zero hwidth.ne'
    rw [padded_of_lt_ten h, Nat.div_eq_of_lt h, Nat.mod_eq_of_lt h, padded_of_lt_ten (by decide),
      List.replicate_succ']
    rfl
  · have hdigits : Nat.toDigits 10 n = Nat.toDigits 10 (n / 10) ++ [(n % 10).digitChar] :=
      Nat.toDigits_of_base_le (by decide) (by omega)
    rw [padded, padded, hdigits, List.length_append, List.length_singleton, Nat.add_sub_add_right,
      List.append_assoc]

theorem length_padded (hwidth : 0 < width) (h : n < 10 ^ width) :
    (padded width n).length = width := by
  have hdigits := (Nat.length_toDigits_le_iff (by decide) hwidth).2 h
  rw [padded, List.length_append, List.length_replicate]
  omega

/-- Of two lists of one length, the place that tells them apart stays the same when they go on. -/
theorem append_lt_append : ∀ {a b : List Char}, a.length = b.length → a < b →
    ∀ x y : List Char, a ++ x < b ++ y
  | [], [], _, h, _, _ => absurd h (List.lt_irrefl [])
  | _ :: a, _ :: b, hlength, h, x, y => by
    rcases List.cons_lt_cons_iff.1 h with hhead | ⟨rfl, htail⟩
    · exact List.cons_lt_cons_iff.2 (.inl hhead)
    · exact List.cons_lt_cons_iff.2
        (.inr ⟨rfl, append_lt_append (Nat.succ.inj hlength) htail x y⟩)

theorem digitChar_lt_digitChar (h : i < j) (hj : j < 10) : i.digitChar < j.digitChar := by
  interval_cases j <;> interval_cases i <;> decide

/-- **Padded numbers of one width are in the order of their values.** -/
theorem padded_lt_padded (hwidth : 0 < width) (h : i < j) (hj : j < 10 ^ width) :
    padded width i < padded width j := by
  induction width, hwidth using Nat.le_induction generalizing i j with
  | base =>
    rw [padded_of_lt_ten (by omega), padded_of_lt_ten (by omega)]
    exact List.cons_lt_cons_iff.2 (.inl (digitChar_lt_digitChar h (by omega)))
  | succ width hwidth ih =>
    rw [Nat.pow_succ] at hj
    rw [padded_succ i hwidth, padded_succ j hwidth]
    -- either the digits before the last one tell them apart, or the last one does
    rcases Nat.lt_or_eq_of_le (Nat.div_le_div_right (c := 10) h.le) with hlt | heq
    · have hlength : (padded width (i / 10)).length = (padded width (j / 10)).length := by
        rw [length_padded hwidth (by omega), length_padded hwidth (by omega)]
      exact append_lt_append hlength (ih hlt (by omega)) _ _
    · rw [heq]
      refine List.append_left_lt (List.cons_lt_cons_iff.2 (.inl ?_))
      exact digitChar_lt_digitChar (by omega) (Nat.mod_lt _ (by decide))

theorem lt_pow_width (h : i < rows) : i < 10 ^ (Nat.toDigits 10 (rows - 1)).length := by
  have hlast : rows - 1 < 10 ^ (Nat.toDigits 10 (rows - 1)).length :=
    (Nat.length_toDigits_le_iff (by decide) Nat.length_toDigits_pos).1 (Nat.le_refl _)
  omega

theorem length_rowId (h : i < rows) :
    (rowId i rows).length = (Nat.toDigits 10 (rows - 1)).length + 2 := by
  rw [rowId, String.length_ofList, List.length_cons, List.length_cons,
    length_padded Nat.length_toDigits_pos (lt_pow_width h)]

/-- **Ids are in the order of the seed.** -/
theorem rowId_lt_rowId (h : i < j) (hj : j < rows) : rowId i rows < rowId j rows := by
  change (rowId i rows).toList < (rowId j rows).toList
  rw [rowId, rowId, String.toList_ofList, String.toList_ofList, List.cons_lt_cons_iff,
    List.cons_lt_cons_iff]
  exact .inr ⟨rfl, .inr ⟨rfl, padded_lt_padded Nat.length_toDigits_pos h (lt_pow_width hj)⟩⟩

theorem order_rowId (h : i < j) (hj : j < rows) :
    (Scalar.text (rowId i rows)).order (.text (rowId j rows)) = .lt :=
  if_pos (rowId_lt_rowId h hj)

end Demo

end CursorPaging
