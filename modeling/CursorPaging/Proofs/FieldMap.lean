import Mathlib.Data.List.Sort
import Mathlib.Tactic.SplitIfs
import CursorPaging.FieldMap

/-!
# What field maps hold

Maps are known by what is found under each name.

* `get?_eq_some_iff`: a value is found under a name exactly when the two are an entry;
* `ext_get?`: maps that hold the same are equal;
* `get?_insert`, `get?_erase`, `insert_erase`;
* `entries_insert_of_lt`: a field whose name is the largest comes last;
* **`get?_project`**: a projection holds the projected fields and no others.
-/

namespace CursorPaging

namespace FieldMap

theorem ext {a b : FieldMap} (h : a.entries = b.entries) : a = b := by
  cases a
  cases b
  cases h
  rfl

theorem lookup_cons_ite (name field : String) (value : Scalar) (rest : List (String × Scalar)) :
    ((field, value) :: rest).lookup name =
      if name = field then some value else rest.lookup name := by
  rw [List.lookup_cons]
  split_ifs with h
  · rw [beq_iff_eq.2 h]
  · rw [beq_eq_false_iff_ne.2 h]

theorem mem_of_lookup {name : String} {value : Scalar} : ∀ {entries : List (String × Scalar)},
    entries.lookup name = some value → (name, value) ∈ entries
  | (f, v) :: rest, h => by
    rw [lookup_cons_ite] at h
    split_ifs at h with hname
    · rw [hname, Option.some.inj h]
      exact List.mem_cons_self
    · exact List.mem_cons_of_mem _ (mem_of_lookup h)

theorem lookup_of_mem {name : String} {value : Scalar} : ∀ {entries : List (String × Scalar)},
    Ascending entries → (name, value) ∈ entries → entries.lookup name = some value
  | (f, v) :: rest, hasc, h => by
    obtain ⟨hhead, hrest⟩ := List.pairwise_cons.1 hasc
    rw [lookup_cons_ite]
    rcases List.mem_cons.1 h with h | h
    · cases h
      exact if_pos rfl
    · rw [if_neg (String.ne_of_lt (hhead _ h)).symm]
      exact lookup_of_mem hrest h

theorem get?_eq_some_iff {m : FieldMap} {name : String} {value : Scalar} :
    m.get? name = some value ↔ (name, value) ∈ m.entries :=
  ⟨mem_of_lookup, lookup_of_mem m.ascending⟩

theorem ext_get? {a b : FieldMap}
    (h : ∀ name value, a.get? name = some value ↔ b.get? name = some value) : a = b := by
  have hmem (e : String × Scalar) : e ∈ a.entries ↔ e ∈ b.entries := by
    rw [← get?_eq_some_iff, ← get?_eq_some_iff]
    exact h e.1 e.2
  have : Std.Irrefl fun e f : String × Scalar => e.1 < f.1 := ⟨fun e => String.lt_irrefl e.1⟩
  have : Std.Antisymm fun e f : String × Scalar => e.1 < f.1 :=
    ⟨fun _ _ hlt hgt => absurd hgt (String.lt_asymm hlt)⟩
  exact ext (List.Pairwise.eq_of_mem_iff a.ascending b.ascending hmem)

theorem contains_iff {m : FieldMap} {name : String} :
    m.contains name = true ↔ ∃ value, m.get? name = some value :=
  Option.isSome_iff_exists

theorem contains_eq_false_iff {m : FieldMap} {name : String} :
    m.contains name = false ↔ m.get? name = none :=
  Option.isSome_eq_false_iff.trans Option.isNone_iff_eq_none

/-! ## Setting and leaving out -/

theorem lookup_insertEntry (name field : String) (value : Scalar) :
    ∀ entries : List (String × Scalar), (insertEntry field value entries).lookup name =
      if name = field then some value else entries.lookup name
  | [] => lookup_cons_ite _ _ _ _
  | (f, v) :: rest => by
    rw [insertEntry]
    by_cases hlt : field < f
    · rw [if_pos hlt, lookup_cons_ite]
    · rw [if_neg hlt]
      by_cases hfield : field = f
      · rw [if_pos hfield, lookup_cons_ite, lookup_cons_ite, ← hfield]
        split_ifs <;> rfl
      · rw [if_neg hfield, lookup_cons_ite, lookup_cons_ite,
          lookup_insertEntry name field value rest]
        by_cases hname : name = f
        · rw [if_pos hname, if_pos hname, if_neg fun h => hfield (h.symm.trans hname)]
        · rw [if_neg hname, if_neg hname]

theorem get?_insert (m : FieldMap) (field name : String) (value : Scalar) :
    (m.insert field value).get? name = if name = field then some value else m.get? name :=
  lookup_insertEntry _ _ _ _

theorem get?_insert_eq_some_iff {m : FieldMap} {field : String} (value : Scalar)
    (hnew : m.get? field = none) (name : String) (other : Scalar) :
    (m.insert field value).get? name = some other ↔
      m.get? name = some other ∨ (name, other) = (field, value) := by
  rw [get?_insert]
  by_cases hname : name = field
  · subst hname
    simp [hnew, eq_comm]
  · simp [hname]

theorem get?_erase (m : FieldMap) (field name : String) :
    (m.erase field).get? name = if name = field then none else m.get? name := by
  refine Option.ext fun value => ?_
  have hmem : (name, value) ∈ (m.erase field).entries ↔
      (name, value) ∈ m.entries ∧ name ≠ field := by
    simp only [erase, List.mem_filter, decide_eq_true_eq]
  rw [get?_eq_some_iff, hmem, ← get?_eq_some_iff]
  split_ifs with h
  · simp [h]
  · exact and_iff_left h

theorem insert_erase {m : FieldMap} {field : String} {value : Scalar}
    (h : m.get? field = some value) : (m.erase field).insert field value = m := by
  refine ext_get? fun name other => ?_
  rw [get?_insert, get?_erase]
  by_cases hname : name = field
  · rw [if_pos hname, hname, h]
  · rw [if_neg hname, if_neg hname]

theorem insertEntry_of_lt {field : String} {value : Scalar} : ∀ {entries : List (String × Scalar)},
    (∀ e ∈ entries, e.1 < field) → insertEntry field value entries = entries ++ [(field, value)]
  | [], _ => rfl
  | (f, v) :: rest, h => by
    have hlt : f < field := h (f, v) List.mem_cons_self
    rw [insertEntry, if_neg (String.lt_asymm hlt), if_neg (String.ne_of_lt hlt).symm,
      insertEntry_of_lt fun e he => h e (List.mem_cons_of_mem _ he)]
    rfl

theorem entries_insert_of_lt {m : FieldMap} {field : String} (value : Scalar)
    (h : ∀ e ∈ m.entries, e.1 < field) :
    (m.insert field value).entries = m.entries ++ [(field, value)] := insertEntry_of_lt h

theorem get?_of_lt {m : FieldMap} {field : String} (h : ∀ e ∈ m.entries, e.1 < field) :
    m.get? field = none := by
  refine Option.eq_none_iff_forall_not_mem.2 fun value hvalue => ?_
  exact String.lt_irrefl _ (h _ (get?_eq_some_iff.1 hvalue))

theorem mem_insert {m : FieldMap} {field : String} {value : Scalar} {e : String × Scalar}
    (h : e ∈ (m.insert field value).entries) : e = (field, value) ∨ e ∈ m.entries :=
  mem_insertEntry h

theorem insert_ne_nil (m : FieldMap) (field : String) (value : Scalar) :
    (m.insert field value).entries ≠ [] := by
  intro h
  have hget : (m.insert field value).get? field = some value := by rw [get?_insert, if_pos rfl]
  have hmem := get?_eq_some_iff.1 hget
  rw [h] at hmem
  exact List.not_mem_nil hmem

/-! ## Projections -/

theorem get?_project {m : FieldMap} : ∀ {names : List String} {k : FieldMap},
    m.project names = .ok k → ∀ name, k.get? name = if name ∈ names then m.get? name else none
  | [], k, h, name => by
    cases h
    rfl
  | field :: rest, k, h, name => by
    rw [project] at h
    cases hfield : m.get? field with
    | none => rw [hfield] at h; cases h
    | some value =>
      rw [hfield] at h
      cases hrest : m.project rest with
      | error missing => rw [hrest] at h; cases h
      | ok inner =>
        rw [hrest] at h
        cases h
        rw [get?_insert, get?_project hrest name]
        by_cases hname : name = field
        · rw [if_pos hname, if_pos (List.mem_cons.2 (.inl hname)), hname, hfield]
        · simp only [List.mem_cons, hname, false_or, if_false]

theorem project_of_contains {m : FieldMap} : ∀ {names : List String},
    (∀ name ∈ names, m.contains name = true) → ∃ k, m.project names = .ok k
  | [], _ => ⟨empty, rfl⟩
  | field :: rest, h => by
    obtain ⟨value, hvalue⟩ := contains_iff.1 (h field List.mem_cons_self)
    obtain ⟨k, hk⟩ := project_of_contains fun name hname => h name (List.mem_cons_of_mem _ hname)
    refine ⟨k.insert field value, ?_⟩
    rw [project, hvalue, hk]
    rfl

end FieldMap

end CursorPaging
