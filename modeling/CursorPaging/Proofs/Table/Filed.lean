import CursorPaging.Proofs.Table.Stored

/-!
# Rows under their own keys

Whatever texts the numbers of its keys have, also where they have no order, a table keeps every row
under the values of its own key fields.

* `Table.Filed`; `Filed.names`: a row of a partition;
* `filed_insert`, `filed_delete`, **`filed_editAll`**: any edits keep it.
-/

namespace CursorPaging

namespace Table

variable {t u : Table} {hash : Scalar} {rows : Partition} {e : Scalar × Record}

/-- Every row is under the hash value and range value that its key fields name. -/
def Filed (t : Table) : Prop :=
  ∀ p ∈ t.partitions, ∀ e ∈ p.2, t.schema.Names e.2.fields (p.1, e.1)

theorem Filed.names (h : t.Filed) (he : e ∈ t.partition hash) :
    t.schema.Names e.2.fields (hash, e.1) := by
  rw [partition] at he
  cases hget : Ordered.get? hash t.partitions with
  | none =>
    rw [hget] at he
    exact absurd he List.not_mem_nil
  | some rows =>
    rw [hget] at he
    exact h _ (Ordered.mem_of_get? hget) e he

theorem Filed.setPartition (h : t.Filed)
    (hrows : ∀ e ∈ rows, t.schema.Names e.2.fields (hash, e.1)) :
    { t with partitions := Ordered.insert hash rows t.partitions }.Filed := by
  intro p hp
  rcases Ordered.mem_of_mem_insert hp with rfl | hp
  · exact hrows
  · exact h p hp

theorem filed_insert (h : t.Filed) {row : Record} {old : Option Record}
    (hinsert : t.insert row = .ok (old, u)) : u.Filed := by
  unfold insert at hinsert
  split at hinsert
  · cases hinsert
  · rename_i hash range hlocate
    cases hinsert
    refine h.setPartition fun e he => ?_
    rcases Ordered.mem_of_mem_insert he with rfl | he
    · exact locate_eq_ok_iff.1 hlocate
    · exact h.names he

theorem filed_delete (h : t.Filed) {key : ResumeKey} {old : Option Record}
    (hdelete : t.delete key = .ok (old, u)) : u.Filed := by
  unfold delete at hdelete
  split at hdelete
  · cases hdelete
  · split at hdelete
    · cases hdelete
      exact h
    · rename_i rows hrows
      cases hdelete
      split_ifs
      · exact fun p hp => h p ((Ordered.erase_sublist _).subset hp)
      · exact h.setPartition fun e he =>
          h _ (Ordered.mem_of_get? hrows) e ((Ordered.erase_sublist _).subset he)

theorem filed_edit (h : t.Filed) (e : Edit) : (t.edit e).Filed := by
  cases e with
  | insert row =>
    rw [edit]
    split
    · exact filed_insert h ‹_›
    · exact h
  | delete key =>
    rw [edit]
    split
    · exact filed_delete h ‹_›
    · exact h

/-- **Any edits** keep the rows under their own keys. -/
theorem filed_editAll (h : t.Filed) (edits : List Edit) : (t.editAll edits).Filed := by
  induction edits generalizing t with
  | nil => exact h
  | cons e rest ih => exact ih (filed_edit h e)

theorem filed_make (name : String) (schema : KeySchema) (pageSize batchMax : Nat) :
    (make name schema pageSize batchMax).Filed := by
  simp [Filed, make]

end Table

end CursorPaging
