import CursorPaging.Proofs.Table.Location
import CursorPaging.Proofs.Table.Ordered

/-!
# What tables store

A table stands for its rows by location. Edits keep the partitions and the rows of each sorted, no
partition empty, and every row at the location that its own key fields name.

* **`Table.WellFormed`**; `Table.Edit`, `Table.edit`, `Table.editAll`;
* `Table.Reached`, **`wellFormed_editAll`**: edits whose keys hold finite numbers keep a table
  well-formed;
* **`rowAt_insert`**, **`rowAt_delete`**: the rows after an edit; `rowAt_editAll_of_ne`: edits for
  other locations leave a row as it is;
* `Table.entries`: the rows with their locations; `entries_sorted`, `rowAt_eq_some_iff`;
* `partition_eq_filter`: a partition is the entries of its hash value.
-/

namespace CursorPaging

namespace Table

variable {t u : Table} {row : Record} {hash : Scalar} {rows : Partition} {loc place : Location}

/-- A table as edits leave it. -/
structure WellFormed (t : Table) : Prop where
  partitions : Ordered.Sorted t.partitions
  rows : ∀ p ∈ t.partitions, Ordered.Sorted p.2
  nonempty : ∀ p ∈ t.partitions, p.2 ≠ []
  located : ∀ p ∈ t.partitions, ∀ e ∈ p.2, t.schema.Locates e.2.fields (p.1, e.1)

namespace WellFormed

theorem sound_rows (h : t.WellFormed) {p : Scalar × Partition} (hp : p ∈ t.partitions) :
    Ordered.Sound p.2 := fun e he => (h.located p hp e he).sound.range

theorem sound_partitions (h : t.WellFormed) : Ordered.Sound t.partitions := by
  intro p hp
  obtain ⟨e, he⟩ := List.exists_mem_of_ne_nil _ (h.nonempty p hp)
  exact (h.located p hp e he).sound.hash

theorem partition_cases (h : t.WellFormed) (hash : Scalar) :
    t.partition hash = [] ∨ (hash, t.partition hash) ∈ t.partitions := by
  unfold partition
  cases hget : Ordered.get? hash t.partitions with
  | none => exact .inl rfl
  | some rows => exact .inr ((Ordered.get?_eq_some_iff h.partitions).1 hget)

theorem sorted_partition (h : t.WellFormed) (hash : Scalar) :
    Ordered.Sorted (t.partition hash) := by
  rcases h.partition_cases hash with hnil | hmem
  · rw [hnil]
    exact List.Pairwise.nil
  · exact h.rows _ hmem

theorem located_partition (h : t.WellFormed) {e : Scalar × Record} (he : e ∈ t.partition hash) :
    t.schema.Locates e.2.fields (hash, e.1) := by
  rcases h.partition_cases hash with hnil | hmem
  · rw [hnil] at he
    exact absurd he List.not_mem_nil
  · exact h.located _ hmem e he

theorem sound_partition (h : t.WellFormed) (hash : Scalar) : Ordered.Sound (t.partition hash) :=
  fun _ he => (h.located_partition he).sound.range

end WellFormed

/-! ## Edits -/

/-- A change to the rows of a table. -/
inductive Edit where
  | insert (row : Record)
  | delete (key : ResumeKey)
  deriving DecidableEq

/-- The numbers in the key fields of a new row spell finite numbers. -/
def Edit.Finite (schema : KeySchema) : Edit → Prop
  | .insert row => FiniteKey schema row.fields
  | .delete _ => True

instance (schema : KeySchema) : DecidablePred (Edit.Finite schema)
  | .insert row => inferInstanceAs (Decidable (FiniteKey schema row.fields))
  | .delete _ => inferInstanceAs (Decidable True)

/-- A table after an edit. One that is refused changes nothing. -/
def edit (t : Table) : Edit → Table
  | .insert row =>
    match t.insert row with
    | .ok (_, t) => t
    | .error _ => t
  | .delete key =>
    match t.delete key with
    | .ok (_, t) => t
    | .error _ => t

/-- A table after some edits. -/
def editAll (t : Table) (edits : List Edit) : Table := edits.foldl edit t

theorem wellFormed_make (name : String) (schema : KeySchema) (pageSize batchMax : Nat) :
    (make name schema pageSize batchMax).WellFormed where
  partitions := List.Pairwise.nil
  rows := by simp [make]
  nonempty := by simp [make]
  located := by simp [make]

theorem WellFormed.setPartition (h : t.WellFormed) (hsorted : Ordered.Sorted rows)
    (hne : rows ≠ []) (hlocated : ∀ e ∈ rows, t.schema.Locates e.2.fields (hash, e.1)) :
    { t with partitions := Ordered.insert hash rows t.partitions }.WellFormed := by
  have hhash : hash.Sound := by
    obtain ⟨e, he⟩ := List.exists_mem_of_ne_nil _ hne
    exact (hlocated e he).sound.hash
  have hmem {p : Scalar × Partition} (hp : p ∈ Ordered.insert hash rows t.partitions) :
      p = (hash, rows) ∨ p ∈ t.partitions :=
    ((Ordered.mem_insert_iff h.partitions).1 hp).imp_right And.left
  refine ⟨Ordered.sorted_insert h.partitions h.sound_partitions hhash, ?_, ?_, ?_⟩
  · intro p hp
    rcases hmem hp with rfl | hp
    · exact hsorted
    · exact h.rows p hp
  · intro p hp
    rcases hmem hp with rfl | hp
    · exact hne
    · exact h.nonempty p hp
  · intro p hp
    rcases hmem hp with rfl | hp
    · exact hlocated
    · exact h.located p hp

theorem wellFormed_insert (h : t.WellFormed) (hfinite : FiniteKey t.schema row.fields)
    {old : Option Record} (hinsert : t.insert row = .ok (old, u)) : u.WellFormed := by
  unfold insert at hinsert
  split at hinsert
  · cases hinsert
  · rename_i hash range hlocate
    cases hinsert
    have hloc : t.schema.Locates row.fields (hash, range) := locates_of_locate hfinite hlocate
    have hsorted := h.sorted_partition hash
    have hmem {e : Scalar × Record} : e ∈ Ordered.insert range row (t.partition hash) ↔
        e = (range, row) ∨ e ∈ t.partition hash ∧ e.1 ≠ range := Ordered.mem_insert_iff hsorted
    refine h.setPartition (Ordered.sorted_insert hsorted (h.sound_partition hash) hloc.sound.range)
      ?_ ?_
    · exact List.ne_nil_of_mem (hmem.2 (.inl rfl))
    · intro e he
      rcases hmem.1 he with rfl | ⟨he, -⟩
      · exact hloc
      · exact h.located_partition he

theorem wellFormed_delete (h : t.WellFormed) {key : ResumeKey} {old : Option Record}
    (hdelete : t.delete key = .ok (old, u)) : u.WellFormed := by
  unfold delete at hdelete
  split at hdelete
  · cases hdelete
  · rename_i hash range _
    split at hdelete
    · cases hdelete
      exact h
    · rename_i rows hrows
      have hstored := (Ordered.get?_eq_some_iff h.partitions).1 hrows
      have hmem {e : Scalar × Record} (he : e ∈ Ordered.erase range rows) : e ∈ rows :=
        (Ordered.erase_sublist rows).subset he
      cases hdelete
      split_ifs with hempty
      · have hsub {p : Scalar × Partition} (hp : p ∈ Ordered.erase hash t.partitions) :
            p ∈ t.partitions := (Ordered.erase_sublist _).subset hp
        exact ⟨Ordered.sorted_erase h.partitions, fun p hp => h.rows p (hsub hp),
          fun p hp => h.nonempty p (hsub hp), fun p hp => h.located p (hsub hp)⟩
      · refine h.setPartition (Ordered.sorted_erase (h.rows _ hstored)) ?_ ?_
        · simpa using hempty
        · exact fun e he => h.located _ hstored e (hmem he)

/-- What edits leave as it is. -/
structure SameShape (t u : Table) : Prop where
  name : u.name = t.name
  schema : u.schema = t.schema
  batchMax : u.batchMax = t.batchMax

theorem edit_sameShape (t : Table) (e : Edit) : SameShape t (t.edit e) := by
  cases e with
  | insert row =>
    rw [edit, insert]
    split
    · rename_i hinsert
      split at hinsert
      · cases hinsert
      · cases hinsert
        exact ⟨rfl, rfl, rfl⟩
    · exact ⟨rfl, rfl, rfl⟩
  | delete key =>
    rw [edit, delete]
    split
    · rename_i hdelete
      split at hdelete
      · cases hdelete
      · split at hdelete <;> cases hdelete <;> exact ⟨rfl, rfl, rfl⟩
    · exact ⟨rfl, rfl, rfl⟩

theorem editAll_sameShape (t : Table) (edits : List Edit) : SameShape t (t.editAll edits) := by
  induction edits generalizing t with
  | nil => exact ⟨rfl, rfl, rfl⟩
  | cons e rest ih =>
    have hfirst := edit_sameShape t e
    have hrest := ih (t.edit e)
    exact ⟨hrest.name.trans hfirst.name, hrest.schema.trans hfirst.schema,
      hrest.batchMax.trans hfirst.batchMax⟩

theorem wellFormed_edit (h : t.WellFormed) {e : Edit} (he : e.Finite t.schema) :
    (t.edit e).WellFormed := by
  cases e with
  | insert row =>
    rw [edit]
    split
    · exact wellFormed_insert h he ‹_›
    · exact h
  | delete key =>
    rw [edit]
    split
    · exact wellFormed_delete h ‹_›
    · exact h

/-- **Edits keep a table well-formed.** -/
theorem wellFormed_editAll {edits : List Edit} (h : t.WellFormed)
    (hedits : ∀ e ∈ edits, e.Finite t.schema) : (t.editAll edits).WellFormed := by
  induction edits generalizing t with
  | nil => exact h
  | cons e rest ih =>
    obtain ⟨he, hrest⟩ := List.forall_mem_cons.1 hedits
    exact ih (wellFormed_edit h he) fun e' he' => by
      rw [(edit_sameShape t e).schema]
      exact hrest e' he'

/-! ## Rows after an edit -/

theorem partition_insert (h : t.WellFormed) (hhash : hash.Sound) (other : Scalar) :
    ({ t with partitions := Ordered.insert hash rows t.partitions } : Table).partition other =
      if other = hash then rows else t.partition other := by
  rw [partition, Ordered.get?_insert h.partitions h.sound_partitions hhash]
  split_ifs <;> rfl

theorem partition_erase (h : t.WellFormed) (hash other : Scalar) :
    ({ t with partitions := Ordered.erase hash t.partitions } : Table).partition other =
      if other = hash then [] else t.partition other := by
  rw [partition, Ordered.get?_erase h.partitions]
  split_ifs <;> rfl

theorem rowAt_insert (h : t.WellFormed) (hfinite : FiniteKey t.schema row.fields)
    (hlocate : t.locate row.fields = .ok place) {old : Option Record}
    (hinsert : t.insert row = .ok (old, u)) (loc : Location) :
    u.rowAt loc = if loc = place then some row else t.rowAt loc := by
  have hplace := (locates_of_locate hfinite hlocate).sound
  obtain ⟨hash, range⟩ := place
  obtain ⟨hash', range'⟩ := loc
  rw [insert, hlocate] at hinsert
  cases hinsert
  rw [rowAt, partition_insert h hplace.hash]
  by_cases hhash : hash' = hash
  · subst hhash
    rw [if_pos rfl, Ordered.get?_insert (h.sorted_partition _) (h.sound_partition _) hplace.range]
    simp [rowAt]
  · rw [if_neg hhash, if_neg (by simp [hhash])]
    rfl

theorem rowAt_delete (h : t.WellFormed) {key : ResumeKey}
    (hlocate : t.locate key.fields = .ok place)
    {old : Option Record} (hdelete : t.delete key = .ok (old, u)) (loc : Location) :
    u.rowAt loc = if loc = place then none else t.rowAt loc := by
  obtain ⟨hash, range⟩ := place
  obtain ⟨hash', range'⟩ := loc
  rw [delete, hlocate] at hdelete
  have hother (hhash : hash' ≠ hash) : ¬ (hash', range') = (hash, range) := by simp [hhash]
  cases hrows : Ordered.get? hash t.partitions with
  | none =>
    simp only [hrows] at hdelete
    cases hdelete
    by_cases hhash : hash' = hash
    · subst hhash
      have hempty : t.rowAt (hash', range') = none := by
        rw [rowAt, partition, hrows]
        rfl
      rw [hempty, ite_self]
    · rw [if_neg (hother hhash)]
  | some rows =>
    simp only [hrows] at hdelete
    cases hdelete
    have hstored := (Ordered.get?_eq_some_iff h.partitions).1 hrows
    by_cases hhash : hash' = hash
    · subst hhash
      have hleft : Ordered.get? range' (Ordered.erase range rows) =
          if (hash', range') = (hash', range) then none else t.rowAt (hash', range') := by
        rw [Ordered.get?_erase (h.rows _ hstored), rowAt, partition, hrows]
        simp
      rw [← hleft, rowAt]
      split_ifs with hempty
      · rw [partition_erase h, if_pos rfl, List.isEmpty_iff.1 hempty]
      · rw [partition_insert h (h.sound_partitions _ hstored), if_pos rfl]
    · rw [if_neg (hother hhash), rowAt]
      split_ifs
      · rw [partition_erase h, if_neg hhash]
        rfl
      · rw [partition_insert h (h.sound_partitions _ hstored), if_neg hhash]
        rfl

/-- The key fields that an edit is for. -/
def Edit.fields : Edit → FieldMap
  | .insert row => row.fields
  | .delete key => key.fields

theorem rowAt_edit_of_ne (h : t.WellFormed) {e : Edit} (he : e.Finite t.schema)
    (hne : t.locate e.fields ≠ .ok loc) : (t.edit e).rowAt loc = t.rowAt loc := by
  cases e with
  | insert row =>
    rw [edit]
    cases hlocate : t.locate row.fields with
    | error e =>
      rw [insert, hlocate]
    | ok place =>
      have hother : loc ≠ place := by
        rintro rfl
        exact hne hlocate
      split
      · rename_i hinsert
        rw [rowAt_insert h he hlocate hinsert, if_neg hother]
      · rfl
  | delete key =>
    rw [edit]
    cases hlocate : t.locate key.fields with
    | error e =>
      rw [delete, hlocate]
    | ok place =>
      have hother : loc ≠ place := by
        rintro rfl
        exact hne hlocate
      split
      · rename_i hdelete
        rw [rowAt_delete h hlocate hdelete, if_neg hother]
      · rfl

theorem SameShape.locate_eq (h : SameShape t u) (fields : FieldMap) :
    u.locate fields = t.locate fields := by
  have hvalue (field : String) : u.keyValue fields field = t.keyValue fields field := by
    unfold keyValue invalid
    rw [h.name]
  unfold locate
  rw [h.schema]
  simp only [hvalue]

theorem rowAt_editAll_of_ne {edits : List Edit} (h : t.WellFormed)
    (hedits : ∀ e ∈ edits, e.Finite t.schema) (hne : ∀ e ∈ edits, t.locate e.fields ≠ .ok loc) :
    (t.editAll edits).rowAt loc = t.rowAt loc := by
  induction edits generalizing t with
  | nil => rfl
  | cons e rest ih =>
    obtain ⟨he, hrest⟩ := List.forall_mem_cons.1 hedits
    obtain ⟨hfirst, hlater⟩ := List.forall_mem_cons.1 hne
    have hshape := edit_sameShape t e
    have hkept := ih (wellFormed_edit h he)
      (fun e' he' => by rw [hshape.schema]; exact hrest e' he')
      fun e' he' => by rw [hshape.locate_eq]; exact hlater e' he'
    exact hkept.trans (rowAt_edit_of_ne h he hfirst)

/-- A table that edits of a new one lead to. -/
def Reached (t : Table) : Prop :=
  ∃ name schema pageSize batchMax edits, (∀ e ∈ edits, Edit.Finite schema e) ∧
    t = (make name schema pageSize batchMax).editAll edits

theorem Reached.wellFormed (h : t.Reached) : t.WellFormed := by
  obtain ⟨name, schema, pageSize, batchMax, edits, hedits, rfl⟩ := h
  exact wellFormed_editAll (wellFormed_make name schema pageSize batchMax) hedits

/-! ## Rows by location -/

/-- The rows of one partition, with their locations. -/
def located (hash : Scalar) (rows : Partition) : List (Location × Record) :=
  rows.map fun e => ((hash, e.1), e.2)

/-- The rows of a table in their order, with their locations. -/
def entries (t : Table) : List (Location × Record) :=
  t.partitions.flatMap fun p => located p.1 p.2

theorem length_entries (t : Table) : t.entries.length = t.size := by
  simp [entries, size, located, List.length_flatMap]

theorem mem_entries_iff : (loc, row) ∈ t.entries ↔ ∃ rows, (loc.1, rows) ∈ t.partitions ∧
    (loc.2, row) ∈ rows := by
  simp only [entries, located, List.mem_flatMap, List.mem_map, Prod.mk.injEq, Prod.exists]
  constructor
  · rintro ⟨hash, rows, hrows, range, row', hrow, rfl, rfl⟩
    exact ⟨rows, hrows, hrow⟩
  · rintro ⟨rows, hrows, hrow⟩
    exact ⟨loc.1, rows, hrows, loc.2, row, hrow, rfl, rfl⟩

theorem rowAt_eq_some_iff (h : t.WellFormed) :
    t.rowAt loc = some row ↔ (loc, row) ∈ t.entries := by
  rw [mem_entries_iff, rowAt, Ordered.get?_eq_some_iff (h.sorted_partition loc.1), partition]
  constructor
  · intro hrow
    cases hget : Ordered.get? loc.1 t.partitions with
    | none =>
      rw [hget] at hrow
      exact absurd hrow List.not_mem_nil
    | some rows =>
      rw [hget] at hrow
      exact ⟨rows, (Ordered.get?_eq_some_iff h.partitions).1 hget, hrow⟩
  · rintro ⟨rows, hrows, hrow⟩
    rw [(Ordered.get?_eq_some_iff h.partitions).2 hrows]
    exact hrow

theorem locates_of_mem_entries (h : t.WellFormed) (hrow : (loc, row) ∈ t.entries) :
    t.schema.Locates row.fields loc := by
  obtain ⟨rows, hrows, hrow⟩ := mem_entries_iff.1 hrow
  exact h.located _ hrows _ hrow

/-- **Rows ascend by location.** -/
theorem entries_sorted (h : t.WellFormed) :
    t.entries.Pairwise fun a b => Location.Before a.1 b.1 := by
  rw [entries, List.pairwise_flatMap]
  refine ⟨fun p hp => ?_, ?_⟩
  · rw [located, List.pairwise_map]
    refine (h.rows p hp).imp ?_
    intro a b hab
    exact Location.before_iff.2 (.inr ⟨rfl, hab⟩)
  · refine h.partitions.imp fun {p q} hpq a ha b hb => ?_
    obtain ⟨e, -, rfl⟩ := List.mem_map.1 ha
    obtain ⟨e', -, rfl⟩ := List.mem_map.1 hb
    exact Location.before_iff.2 (.inl hpq)

/-! ## One partition of the entries -/

theorem filter_hash_located (hash other : Scalar) (rows : Partition) :
    (located other rows).filter (fun e => e.1.1 = hash) =
      if other = hash then located other rows else [] := by
  split_ifs with h
  · refine List.filter_eq_self.2 fun e he => ?_
    obtain ⟨_, -, rfl⟩ := List.mem_map.1 he
    simpa using h
  · refine List.filter_eq_nil_iff.2 fun e he => ?_
    obtain ⟨_, -, rfl⟩ := List.mem_map.1 he
    simpa using h

theorem filter_flatMap_located (hash : Scalar) : ∀ {partitions : List (Scalar × Partition)},
    Ordered.Sorted partitions →
      (partitions.flatMap fun p => located p.1 p.2).filter (fun e => e.1.1 = hash) =
        located hash ((Ordered.get? hash partitions).getD [])
  | [], _ => rfl
  | (k, rows) :: rest, h => by
    have ih := filter_flatMap_located hash (Ordered.sorted_cons.1 h).2
    have hnone (hne : ∀ p ∈ rest, p.1 ≠ hash) : Ordered.get? hash rest = none :=
      (Ordered.get?_eq_none_iff (Ordered.sorted_cons.1 h).2).2 hne
    rw [List.flatMap_cons, List.filter_append, filter_hash_located, ih, Ordered.get?]
    cases horder : hash.order k with
    | lt =>
      have hne {p : Scalar × Partition} := Ordered.ne_of_order_lt (e := p) h horder
      rw [if_neg (hne List.mem_cons_self), hnone fun p hp => hne (List.mem_cons_of_mem _ hp)]
      rfl
    | eq =>
      obtain rfl := Scalar.order_eq_iff.1 horder
      rw [if_pos rfl, hnone fun p hp => Ordered.ne_of_mem_rest h hp]
      exact List.append_nil _
    | gt =>
      rw [if_neg]
      · rfl
      · rintro rfl
        rw [Scalar.order_self] at horder
        cases horder

theorem partition_eq_filter (h : t.WellFormed) (hash : Scalar) :
    located hash (t.partition hash) = t.entries.filter fun e => e.1.1 = hash :=
  (filter_flatMap_located hash h.partitions).symm

end Table

end CursorPaging
