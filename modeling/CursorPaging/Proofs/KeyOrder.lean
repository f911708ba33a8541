import CursorPaging.Proofs.Table.Stored

/-!
# The order of keys

Keys compare field by field. Their order inherits the laws of the order of scalars: equality and
reversal hold of all keys, and transitivity where values of the same field are alike. Numbers that
spell no finite number break it, and a table that holds both sorts can lose a row.

* `orderEntries_eq_iff`, `orderEntries_swap`, `orderEntries_lt_trans`: the laws for lists of fields;
* **`order_lawful`**: the laws for scalars and for keys;
* `order_not_transitive`: what fails without the condition.
-/

namespace CursorPaging

namespace FieldMap

variable {as bs cs : List (String × Scalar)}

/-! ## Lists of fields -/

theorem orderEntries_cons_eq {f g : String} {v w : Scalar} :
    orderEntries ((f, v) :: as) ((g, w) :: bs) = .eq ↔
      f = g ∧ v = w ∧ orderEntries as bs = .eq := by
  rw [orderEntries, Ordering.then_eq_eq, Ordering.then_eq_eq, Std.compare_eq_iff_eq,
    Scalar.order_eq_iff]

theorem orderEntries_cons_lt {f g : String} {v w : Scalar} :
    orderEntries ((f, v) :: as) ((g, w) :: bs) = .lt ↔
      compare f g = .lt ∨ f = g ∧ (v.order w = .lt ∨ v = w ∧ orderEntries as bs = .lt) := by
  rw [orderEntries, Ordering.then_eq_lt, Ordering.then_eq_lt, Std.compare_eq_iff_eq,
    Scalar.order_eq_iff]

theorem orderEntries_eq_iff : orderEntries as bs = .eq ↔ as = bs := by
  induction as generalizing bs with
  | nil => cases bs <;> simp [orderEntries]
  | cons a as ih =>
    obtain ⟨f, v⟩ := a
    cases bs with
    | nil => simp [orderEntries]
    | cons b bs =>
      obtain ⟨g, w⟩ := b
      rw [orderEntries_cons_eq, ih, List.cons.injEq, Prod.mk.injEq, and_assoc]

theorem orderEntries_swap (as bs : List (String × Scalar)) :
    (orderEntries as bs).swap = orderEntries bs as := by
  induction as generalizing bs with
  | nil => cases bs <;> rfl
  | cons a as ih =>
    cases bs with
    | nil => rfl
    | cons b bs =>
      rw [orderEntries, orderEntries, Ordering.swap_then, Ordering.swap_then, Scalar.order_swap, ih,
        ← Std.OrientedCmp.eq_swap]

/-- Values of the same field are alike. -/
def EntriesAlike (as bs : List (String × Scalar)) : Prop :=
  ∀ a ∈ as, ∀ b ∈ bs, a.1 = b.1 → a.2.Alike b.2

theorem EntriesAlike.tail {a b : String × Scalar} (h : EntriesAlike (a :: as) (b :: bs)) :
    EntriesAlike as bs := fun x hx y hy =>
  h x (List.mem_cons_of_mem _ hx) y (List.mem_cons_of_mem _ hy)

theorem EntriesAlike.head {f : String} {v w : Scalar}
    (h : EntriesAlike ((f, v) :: as) ((f, w) :: bs)) : v.Alike w :=
  h _ List.mem_cons_self _ List.mem_cons_self rfl

theorem orderEntries_lt_trans (hab' : EntriesAlike as bs) (hbc' : EntriesAlike bs cs)
    (hab : orderEntries as bs = .lt) (hbc : orderEntries bs cs = .lt) :
    orderEntries as cs = .lt := by
  induction as generalizing bs cs with
  | nil =>
    cases cs with
    | nil => cases bs <;> cases hbc
    | cons c cs => rfl
  | cons a as ih =>
    obtain ⟨f, v⟩ := a
    cases bs with
    | nil => cases hab
    | cons b bs =>
      obtain ⟨g, w⟩ := b
      cases cs with
      | nil => cases hbc
      | cons c cs =>
        obtain ⟨h, x⟩ := c
        rw [orderEntries_cons_lt] at hab hbc ⊢
        -- the lists part at the first name or value that differs on either side
        rcases hab with hfg | ⟨rfl, hab⟩ <;> rcases hbc with hgh | ⟨rfl, hbc⟩
        · exact .inl (Std.TransCmp.lt_trans hfg hgh)
        · exact .inl hfg
        · exact .inl hgh
        · refine .inr ⟨rfl, ?_⟩
          rcases hab with hvw | ⟨rfl, hab⟩ <;> rcases hbc with hwx | ⟨rfl, hbc⟩
          · exact .inl (Scalar.order_lt_trans_of_alike hab'.head hbc'.head hvw hwx)
          · exact .inl hvw
          · exact .inl hwx
          · exact .inr ⟨rfl, ih hab'.tail hbc'.tail hab hbc⟩

/-- Values that two maps hold under the same name are alike. -/
def Alike (a b : FieldMap) : Prop :=
  ∀ name v w, a.get? name = some v → b.get? name = some w → v.Alike w

theorem Alike.entries {a b : FieldMap} (h : a.Alike b) : EntriesAlike a.entries b.entries := by
  rintro ⟨f, v⟩ hv ⟨g, w⟩ hw heq
  obtain rfl : f = g := heq
  exact h f v w (get?_eq_some_iff.2 hv) (get?_eq_some_iff.2 hw)

end FieldMap

/-! ## Keys -/

namespace ResumeKey

theorem order_eq_iff {a b : ResumeKey} : a.order b = .eq ↔ a = b := by
  obtain ⟨a⟩ := a
  obtain ⟨b⟩ := b
  rw [order, FieldMap.order, FieldMap.orderEntries_eq_iff, ResumeKey.mk.injEq]
  exact ⟨FieldMap.ext, congrArg FieldMap.entries⟩

theorem order_swap (a b : ResumeKey) : (a.order b).swap = b.order a :=
  FieldMap.orderEntries_swap _ _

theorem order_lt_trans_of_alike {a b c : ResumeKey} (hab' : a.fields.Alike b.fields)
    (hbc' : b.fields.Alike c.fields) (hab : a.order b = .lt) (hbc : b.order c = .lt) :
    a.order c = .lt :=
  FieldMap.orderEntries_lt_trans hab'.entries hbc'.entries hab hbc

/-- **The laws of the order**, for scalars and for keys, transitivity where neighbours are alike. -/
theorem order_lawful (a b c : Scalar) (k l m : ResumeKey) :
    (a.order b = .eq ↔ a = b) ∧ (a.order b).swap = b.order a ∧
    (a.Alike b → b.Alike c → a.order b = .lt → b.order c = .lt → a.order c = .lt) ∧
    (k.order l = .eq ↔ k = l) ∧ (k.order l).swap = l.order k ∧
    (k.fields.Alike l.fields → l.fields.Alike m.fields →
      k.order l = .lt → l.order m = .lt → k.order m = .lt) :=
  ⟨Scalar.order_eq_iff, Scalar.order_swap a b, Scalar.order_lt_trans_of_alike,
    order_eq_iff, order_swap k l, order_lt_trans_of_alike⟩

/-- Two finite numbers and a text, as values and in keys. -/
theorem order_lawful_mixed :
    let key (v : Scalar) : ResumeKey := ⟨.ofList [("h", v)]⟩
    Scalar.order (.number "9") (.text "1x") = .lt ∧
      (key (.number "9")).order (key (.text "1x")) = .lt := by
  intro key
  have halike {v w : Scalar} (h : v.Alike w) : (key v).fields.Alike (key w).fields := by
    intro name v' w' hv hw
    obtain ⟨rfl, rfl⟩ := Prod.mk.inj (List.mem_singleton.1 (FieldMap.get?_eq_some_iff.1 hv))
    obtain ⟨-, rfl⟩ := Prod.mk.inj (List.mem_singleton.1 (FieldMap.get?_eq_some_iff.1 hw))
    exact h
  have hnumbers : Scalar.Alike (.number "9") (.number "10") := by decide +kernel
  have htext : Scalar.Alike (.number "10") (.text "1x") := trivial
  obtain ⟨-, -, hscalars, -, -, hkeys⟩ := order_lawful (.number "9") (.number "10") (.text "1x")
    (key (.number "9")) (key (.number "10")) (key (.text "1x"))
  exact ⟨hscalars hnumbers htext (by decide +kernel) (by decide +kernel),
    hkeys (halike hnumbers) (halike htext) (by decide +kernel) (by decide +kernel)⟩

/-- `9` is before `10` by value, and `10` before `1x` before `9` by text, so the row of `1x` is not
found. -/
theorem order_not_transitive :
    (¬ ∀ a b c : Scalar, a.order b = .lt → b.order c = .lt → a.order c = .lt) ∧
      (¬ ∀ a b c : ResumeKey, a.order b = .lt → b.order c = .lt → a.order c = .lt) ∧
      let key (range : String) : FieldMap := .ofList [("h", .text "a"), ("r", .number range)]
      let t := (Table.make "t" ⟨"h", some "r"⟩ 1 1).editAll
        [.insert ⟨key "10"⟩, .insert ⟨key "1x"⟩, .insert ⟨key "9"⟩]
      t.size = 3 ∧ t.get ⟨key "1x"⟩ = .ok none := by
  refine ⟨fun h => ?_, fun h => ?_, by decide +kernel⟩
  · have hac := h (.number "9") (.number "10") (.number "1x") (by decide +kernel)
      (by decide +kernel)
    exact absurd hac (by decide +kernel)
  · have hac := h ⟨.ofList [("h", .number "9")]⟩ ⟨.ofList [("h", .number "10")]⟩
      ⟨.ofList [("h", .number "1x")]⟩ (by decide +kernel) (by decide +kernel)
    exact absurd hac (by decide +kernel)

end ResumeKey

end CursorPaging
