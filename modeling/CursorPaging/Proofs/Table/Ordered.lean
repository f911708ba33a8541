import CursorPaging.Proofs.Scalar
import CursorPaging.Table.Ordered

/-!
# Sorted entries

On strictly ascending entries the operations are what their names say. Insertion and the cuts at a
key compare entries that are far apart, so they need keys on which the order is transitive.

* `Sorted`, `Sound`;
* `mem_of_get?`, `mem_of_mem_insert`: what is found and put in, sorted or not;
* **`get?_eq_some_iff`**, `mem_insert_iff`, `mem_erase_iff`: what is found, put in and left out;
* `sorted_insert`, `sorted_erase`; `get?_insert`, `get?_erase`;
* `after_suffix`, `before_prefix`, `startingAt_suffix`: the cuts at a key leave one end of the
  entries;
* **`after_eq_filter`**, `before_eq_filter`, `startingAt_eq_filter`: which ones.
-/

namespace CursorPaging

namespace Ordered

variable {α : Type} {key : Scalar} {value : α} {entries : List (Scalar × α)} {e : Scalar × α}

/-- Strictly ascending keys. -/
def Sorted (entries : List (Scalar × α)) : Prop := entries.Pairwise fun a b => a.1.order b.1 = .lt

/-- Keys on which the order is transitive. -/
def Sound (entries : List (Scalar × α)) : Prop := ∀ e ∈ entries, e.1.Sound

theorem sorted_cons {rest : List (Scalar × α)} :
    Sorted (e :: rest) ↔ (∀ a ∈ rest, e.1.order a.1 = .lt) ∧ Sorted rest := List.pairwise_cons

theorem sound_cons {rest : List (Scalar × α)} : Sound (e :: rest) ↔ e.1.Sound ∧ Sound rest :=
  List.forall_mem_cons

theorem ne_of_order_lt {k : Scalar} {v : α} {rest : List (Scalar × α)}
    (h : Sorted ((k, v) :: rest)) (hlt : key.order k = .lt) (he : e ∈ (k, v) :: rest) :
    e.1 ≠ key := by
  rintro rfl
  rcases List.mem_cons.1 he with rfl | he
  · rw [Scalar.order_self] at hlt
    cases hlt
  · have hgt := Scalar.order_gt_iff.2 hlt
    rw [(sorted_cons.1 h).1 e he] at hgt
    cases hgt

theorem ne_of_mem_rest {k : Scalar} {v : α} {rest : List (Scalar × α)}
    (h : Sorted ((k, v) :: rest)) (he : e ∈ rest) : e.1 ≠ k := by
  rintro rfl
  have hlt := (sorted_cons.1 h).1 e he
  rw [Scalar.order_self] at hlt
  cases hlt

theorem order_lt_of_mem {k : Scalar} {v : α} {rest : List (Scalar × α)}
    (h : Sorted ((k, v) :: rest)) (hsound : Sound ((k, v) :: rest)) (hkey : key.Sound)
    (hlt : key.order k = .lt) (he : e ∈ (k, v) :: rest) : key.order e.1 = .lt := by
  rcases List.mem_cons.1 he with rfl | he'
  · exact hlt
  · obtain ⟨hk, hrest⟩ := sound_cons.1 hsound
    exact Scalar.order_lt_trans hkey hk (hrest e he') hlt ((sorted_cons.1 h).1 e he')

/-! ## Entries in any order -/

theorem mem_of_get? : ∀ {entries : List (Scalar × α)}, get? key entries = some value →
    (key, value) ∈ entries
  | (k, v) :: rest, h => by
    rw [get?] at h
    cases horder : key.order k with
    | lt => simp [horder] at h
    | eq =>
      obtain rfl := Scalar.order_eq_iff.1 horder
      simp only [horder, Option.some.injEq] at h
      exact h ▸ List.mem_cons_self
    | gt =>
      simp only [horder] at h
      exact List.mem_cons_of_mem _ (mem_of_get? h)

theorem mem_of_mem_insert : ∀ {entries : List (Scalar × α)}, e ∈ insert key value entries →
    e = (key, value) ∨ e ∈ entries
  | [], h => .inl (List.mem_singleton.1 h)
  | (k, v) :: rest, h => by
    rw [insert] at h
    cases horder : key.order k with
    | lt =>
      simp only [horder] at h
      exact List.mem_cons.1 h
    | eq =>
      obtain rfl := Scalar.order_eq_iff.1 horder
      simp only [horder] at h
      exact (List.mem_cons.1 h).imp_right (List.mem_cons_of_mem _)
    | gt =>
      simp only [horder] at h
      rcases List.mem_cons.1 h with rfl | h
      · exact .inr List.mem_cons_self
      · exact (mem_of_mem_insert h).imp_right (List.mem_cons_of_mem _)

/-! ## Finding -/

/-- **An entry is found exactly when it is stored.** -/
theorem get?_eq_some_iff : ∀ {entries : List (Scalar × α)}, Sorted entries →
    (get? key entries = some value ↔ (key, value) ∈ entries)
  | [], _ => by simp [get?]
  | (k, v) :: rest, h => by
    have ih := get?_eq_some_iff (sorted_cons.1 h).2
    rw [get?]
    cases horder : key.order k with
    | lt =>
      have hmissing : (key, value) ∉ (k, v) :: rest := fun hmem => ne_of_order_lt h horder hmem rfl
      simpa using hmissing
    | eq =>
      obtain rfl := Scalar.order_eq_iff.1 horder
      refine ⟨fun hfound => ?_, fun hmem => ?_⟩
      · rw [Option.some.inj hfound]
        exact List.mem_cons_self
      · rcases List.mem_cons.1 hmem with hmem | hmem
        · cases hmem
          rfl
        · exact absurd rfl (ne_of_mem_rest h hmem)
    | gt =>
      refine ih.trans ⟨List.mem_cons_of_mem _, fun hmem => ?_⟩
      rcases List.mem_cons.1 hmem with hmem | hmem
      · cases hmem
        rw [Scalar.order_self] at horder
        cases horder
      · exact hmem

theorem get?_eq_none_iff (h : Sorted entries) :
    get? key entries = none ↔ ∀ e ∈ entries, e.1 ≠ key := by
  rw [Option.eq_none_iff_forall_not_mem]
  constructor
  · rintro hnone ⟨k, v⟩ hmem rfl
    exact hnone v ((get?_eq_some_iff h).2 hmem)
  · intro hne v hv
    exact hne (key, v) ((get?_eq_some_iff h).1 hv) rfl

/-! ## Putting in and leaving out -/

theorem mem_insert_iff : ∀ {entries : List (Scalar × α)}, Sorted entries →
    (e ∈ insert key value entries ↔ e = (key, value) ∨ e ∈ entries ∧ e.1 ≠ key)
  | [], _ => by simp [insert]
  | (k, v) :: rest, h => by
    have ih := mem_insert_iff (sorted_cons.1 h).2
    rw [insert]
    cases horder : key.order k with
    | lt =>
      rw [List.mem_cons]
      exact or_congr_right (iff_self_and.2 fun he => ne_of_order_lt h horder he)
    | eq =>
      obtain rfl := Scalar.order_eq_iff.1 horder
      simp only [List.mem_cons]
      refine or_congr_right ⟨fun he => ⟨.inr he, ne_of_mem_rest h he⟩, ?_⟩
      rintro ⟨rfl | he, hne⟩
      · exact absurd rfl hne
      · exact he
    | gt =>
      have hk : k ≠ key := by
        rintro rfl
        rw [Scalar.order_self] at horder
        cases horder
      simp only [List.mem_cons, ih]
      constructor
      · rintro (rfl | rfl | he)
        · exact .inr ⟨.inl rfl, hk⟩
        · exact .inl rfl
        · exact .inr ⟨.inr he.1, he.2⟩
      · rintro (rfl | ⟨rfl | he, hne⟩)
        · exact .inr (.inl rfl)
        · exact .inl rfl
        · exact .inr (.inr ⟨he, hne⟩)

theorem sorted_insert : ∀ {entries : List (Scalar × α)}, Sorted entries → Sound entries →
    key.Sound → Sorted (insert key value entries)
  | [], _, _, _ => List.pairwise_singleton _ _
  | (k, v) :: rest, h, hsound, hkey => by
    obtain ⟨hhead, hrest⟩ := sorted_cons.1 h
    rw [insert]
    cases horder : key.order k with
    | lt => exact sorted_cons.2 ⟨fun a ha => order_lt_of_mem h hsound hkey horder ha, h⟩
    | eq => exact sorted_cons.2 ⟨hhead, hrest⟩
    | gt =>
      refine sorted_cons.2 ⟨fun a ha => ?_, sorted_insert hrest (sound_cons.1 hsound).2 hkey⟩
      rcases (mem_insert_iff hrest).1 ha with rfl | ⟨ha, -⟩
      · exact Scalar.order_gt_iff.1 horder
      · exact hhead a ha

theorem mem_erase_iff : ∀ {entries : List (Scalar × α)}, Sorted entries →
    (e ∈ erase key entries ↔ e ∈ entries ∧ e.1 ≠ key)
  | [], _ => by simp [erase]
  | (k, v) :: rest, h => by
    have ih := mem_erase_iff (sorted_cons.1 h).2
    rw [erase]
    cases horder : key.order k with
    | lt => exact iff_self_and.2 fun he => ne_of_order_lt h horder he
    | eq =>
      obtain rfl := Scalar.order_eq_iff.1 horder
      simp only [List.mem_cons]
      refine ⟨fun he => ⟨.inr he, ne_of_mem_rest h he⟩, ?_⟩
      rintro ⟨rfl | he, hne⟩
      · exact absurd rfl hne
      · exact he
    | gt =>
      have hk : k ≠ key := by
        rintro rfl
        rw [Scalar.order_self] at horder
        cases horder
      simp only [List.mem_cons, ih]
      constructor
      · rintro (rfl | he)
        · exact ⟨.inl rfl, hk⟩
        · exact ⟨.inr he.1, he.2⟩
      · rintro ⟨rfl | he, hne⟩
        · exact .inl rfl
        · exact .inr ⟨he, hne⟩

theorem erase_sublist : ∀ entries : List (Scalar × α), (erase key entries).Sublist entries
  | [] => .slnil
  | (k, v) :: rest => by
    rw [erase]
    cases key.order k with
    | lt => exact List.Sublist.refl _
    | eq => exact List.sublist_cons_self _ _
    | gt => exact (erase_sublist rest).cons_cons _

theorem sorted_erase (h : Sorted entries) : Sorted (erase key entries) :=
  List.Pairwise.sublist (erase_sublist entries) h

theorem get?_insert (h : Sorted entries) (hsound : Sound entries) (hkey : key.Sound)
    (other : Scalar) :
    get? other (insert key value entries) =
      if other = key then some value else get? other entries := by
  refine Option.ext fun v => ?_
  rw [get?_eq_some_iff (sorted_insert h hsound hkey), mem_insert_iff h]
  by_cases heq : other = key
  · simp [heq, eq_comm]
  · simp [heq, get?_eq_some_iff h]

theorem get?_erase (h : Sorted entries) (other : Scalar) :
    get? other (erase key entries) = if other = key then none else get? other entries := by
  refine Option.ext fun v => ?_
  rw [get?_eq_some_iff (sorted_erase h), mem_erase_iff h]
  by_cases heq : other = key
  · simp [heq]
  · simp [heq, get?_eq_some_iff h]

/-! ## Cuts at a key -/

/-- What comes after a key is the end of the list, whatever the order does. -/
theorem after_suffix : ∀ entries : List (Scalar × α), after key entries <:+ entries
  | [] => List.suffix_refl _
  | (k, v) :: rest => by
    rw [after]
    cases key.order k with
    | lt => exact List.suffix_refl _
    | eq => exact List.suffix_cons _ _
    | gt => exact (after_suffix rest).trans (List.suffix_cons _ _)

theorem before_prefix : ∀ entries : List (Scalar × α), before key entries <+: entries
  | [] => List.prefix_refl _
  | (k, v) :: rest => by
    rw [before]
    cases key.order k with
    | lt => exact List.nil_prefix
    | eq => exact List.nil_prefix
    | gt => exact (List.cons_prefix_cons).2 ⟨rfl, before_prefix rest⟩

theorem startingAt_suffix : ∀ entries : List (Scalar × α), startingAt key entries <:+ entries
  | [] => List.suffix_refl _
  | (k, v) :: rest => by
    rw [startingAt]
    cases key.order k with
    | lt => exact List.suffix_refl _
    | eq => exact List.suffix_refl _
    | gt => exact (startingAt_suffix rest).trans (List.suffix_cons _ _)

theorem filter_eq_self_of_order_lt {k : Scalar} {v : α} {rest : List (Scalar × α)}
    (h : Sorted ((k, v) :: rest)) (hsound : Sound ((k, v) :: rest)) (hkey : key.Sound)
    (hlt : key.order k = .lt) :
    ((k, v) :: rest).filter (fun e => key.order e.1 = .lt) = (k, v) :: rest :=
  List.filter_eq_self.2 fun _ he => decide_eq_true (order_lt_of_mem h hsound hkey hlt he)

theorem after_eq_filter (hkey : key.Sound) : ∀ {entries : List (Scalar × α)}, Sorted entries →
    Sound entries → after key entries = entries.filter fun e => key.order e.1 = .lt
  | [], _, _ => rfl
  | (k, v) :: rest, h, hsound => by
    obtain ⟨hhead, hrest⟩ := sorted_cons.1 h
    rw [after]
    cases horder : key.order k with
    | lt => exact (filter_eq_self_of_order_lt h hsound hkey horder).symm
    | eq =>
      obtain rfl := Scalar.order_eq_iff.1 horder
      rw [List.filter_cons_of_neg (by simp [horder]), List.filter_eq_self.2]
      exact fun e he => decide_eq_true (hhead e he)
    | gt =>
      rw [List.filter_cons_of_neg (by simp [horder])]
      exact after_eq_filter hkey hrest (sound_cons.1 hsound).2

theorem not_order_lt_of_mem {k : Scalar} {v : α} {rest : List (Scalar × α)}
    (h : Sorted ((k, v) :: rest)) (hsound : Sound ((k, v) :: rest)) (hkey : key.Sound)
    (hnot : key.order k ≠ .gt) (he : e ∈ (k, v) :: rest) : e.1.order key ≠ .lt := by
  intro hlt
  have hgt : key.order e.1 = .gt := Scalar.order_gt_iff.2 hlt
  obtain ⟨hk, hrest⟩ := sound_cons.1 hsound
  rcases List.mem_cons.1 he with rfl | he'
  · exact hnot hgt
  · exact hnot (Scalar.order_gt_iff.2
      (Scalar.order_lt_trans hk (hrest e he') hkey ((sorted_cons.1 h).1 e he') hlt))

theorem before_eq_filter (hkey : key.Sound) : ∀ {entries : List (Scalar × α)}, Sorted entries →
    Sound entries → before key entries = entries.filter fun e => e.1.order key = .lt
  | [], _, _ => rfl
  | (k, v) :: rest, h, hsound => by
    have hnone (hnot : key.order k ≠ .gt) :
        [] = ((k, v) :: rest).filter fun e => e.1.order key = .lt := by
      refine (List.filter_eq_nil_iff.2 fun e he => ?_).symm
      simpa using not_order_lt_of_mem h hsound hkey hnot he
    rw [before]
    cases horder : key.order k with
    | lt => exact hnone (by rw [horder]; decide)
    | eq => exact hnone (by rw [horder]; decide)
    | gt =>
      have hlt : k.order key = .lt := Scalar.order_gt_iff.1 horder
      rw [List.filter_cons_of_pos (by simp [hlt])]
      exact congrArg ((k, v) :: ·)
        (before_eq_filter hkey (sorted_cons.1 h).2 (sound_cons.1 hsound).2)

theorem startingAt_eq_filter (hkey : key.Sound) : ∀ {entries : List (Scalar × α)},
    Sorted entries → Sound entries →
      startingAt key entries = entries.filter fun e => key.order e.1 ≠ .gt
  | [], _, _ => rfl
  | (k, v) :: rest, h, hsound => by
    have hall (hnot : key.order k ≠ .gt) :
        (k, v) :: rest = ((k, v) :: rest).filter fun e => key.order e.1 ≠ .gt := by
      refine (List.filter_eq_self.2 fun e he => ?_).symm
      simpa [Scalar.order_gt_iff] using not_order_lt_of_mem h hsound hkey hnot he
    rw [startingAt]
    cases horder : key.order k with
    | lt => exact hall (by rw [horder]; decide)
    | eq => exact hall (by rw [horder]; decide)
    | gt =>
      rw [List.filter_cons_of_neg (by simp [horder])]
      exact startingAt_eq_filter hkey (sorted_cons.1 h).2 (sound_cons.1 hsound).2

end Ordered

end CursorPaging
