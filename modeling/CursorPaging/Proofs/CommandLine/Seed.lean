import CursorPaging.Proofs.CommandLine.Ids
import CursorPaging.Proofs.Table.Page

/-!
# The seeded table

Each row of the seed goes behind all rows before it. So the table has one partition, with the rows
in the order of the seed, and that is the order in which queries and scans read them.

* `Demo.stored`, `Demo.seeded`: the first rows of the seed, and the table that holds them;
* `insert_row`, **`seed_eq`**: seeding gives this table; `wellFormed_seeded`;
* `ofRecord_row`: what a row is printed from; `project_row`, `locates_row`, `get_key`: its key;
* `Reads`, **`reads_seeded`**: the whole seed is read in its order; `readsAfter_seeded`: and the
  rest of it after a row.
-/

namespace CursorPaging

-- powers are those of the core library
attribute [local instance (10000)] instPowNat

theorem Ordered.insert_of_after {α : Type} {key : Scalar} {value : α} :
    ∀ {entries : List (Scalar × α)}, (∀ e ∈ entries, e.1.order key = .lt) →
      insert key value entries = entries ++ [(key, value)]
  | [], _ => rfl
  | (k, v) :: rest, h => by
    obtain ⟨hhead, hrest⟩ := List.forall_mem_cons.1 h
    rw [insert, Scalar.order_gt_iff.2 hhead]
    exact congrArg ((k, v) :: ·) (insert_of_after hrest)

namespace Demo

variable {i rows count : Nat} {settings : PagingSettings}

/-! ## Rows and keys -/

/-- Where a row is stored. -/
def place (index rows : Nat) : Location := (.text tenant, .text (rowId index rows))

theorem get?_key (i rows : Nat) (name : String) : (key i rows).fields.get? name =
    if name = "id" then some (.text (rowId i rows))
    else if name = "tenant" then some (.text tenant) else none := by
  change ((FieldMap.empty.insert "tenant" _).insert "id" _).get? name = _
  rw [FieldMap.get?_insert, FieldMap.get?_insert]
  rfl

theorem get?_row (i rows : Nat) (name : String) : (row i rows).fields.get? name =
    if name = "n" then some (.number (toString i)) else (key i rows).fields.get? name :=
  FieldMap.get?_insert _ _ _ _

theorem locates_key (i rows : Nat) : schema.Locates (key i rows).fields (place i rows) where
  hash := get?_key i rows "tenant"
  hashIsKey := trivial
  range field hfield := by
    cases hfield
    exact ⟨get?_key i rows "id", trivial⟩
  noRange h := nomatch h

theorem get?_row_of_mem {field : String} (h : field ∈ schema.fields) :
    (row i rows).fields.get? field = (key i rows).fields.get? field := by
  rw [get?_row, if_neg]
  rintro rfl
  exact absurd h (by decide)

theorem locates_row (i rows : Nat) : schema.Locates (row i rows).fields (place i rows) :=
  (locates_key i rows).congr fun _ => get?_row_of_mem

theorem project_row (i rows : Nat) : (row i rows).project schema.fields = .ok (key i rows) := by
  obtain ⟨fields, hfields⟩ := FieldMap.project_of_contains (m := (row i rows).fields)
    fun _ hfield => (locates_row i rows).contains hfield
  have hsame : fields = (key i rows).fields := FieldMap.ext_get? fun name value => by
    rw [FieldMap.get?_project hfields]
    split_ifs with hfield
    · rw [get?_row_of_mem hfield]
    · rw [get?_key, if_neg (by rintro rfl; exact hfield (by decide)),
        if_neg (by rintro rfl; exact hfield (by decide))]
      simp
  rw [Record.project, hfields, hsame]
  rfl

/-- What a row is printed from: its id, and the number nearest to its index. -/
def shown (index rows : Nat) : DemoRow := ⟨rowId index rows, .ofDecimal ⟨false, index, 0⟩⟩

theorem ofRecord_row (h : i < 2 ^ (64 : Nat)) :
    DemoRow.ofRecord (row i rows) = .ok (shown i rows) := by
  have hid : (row i rows).fields.get? "id" = some (.text (rowId i rows)) :=
    ((locates_row i rows).range "id" rfl).1
  have hn : (row i rows).fields.get? "n" = some (.number (toString i)) := get?_row i rows "n"
  simp only [DemoRow.ofRecord, hid, hn, Option.bind_some, Scalar.text?, Scalar.number?,
    Binary64.finite?_toString h]
  rfl

/-! ## Seeding -/

/-- The first rows of the seed, by their ids. -/
def stored (count rows : Nat) : Partition :=
  (List.range count).map fun i => (.text (rowId i rows), row i rows)

/-- The table of the first rows of the seed. -/
def seeded (settings : PagingSettings) (count rows : Nat) : Table :=
  { Table.make tableName schema settings.pageSize settings.batchMax with
    partitions := if count = 0 then [] else [(.text tenant, stored count rows)] }

theorem stored_succ (count rows : Nat) : stored (count + 1) rows =
    stored count rows ++ [(.text (rowId count rows), row count rows)] := by
  rw [stored, List.range_succ, List.map_append]
  rfl

theorem partition_seeded (settings : PagingSettings) (count rows : Nat) :
    (seeded settings count rows).partition (.text tenant) = stored count rows := by
  rw [Table.partition, seeded]
  split_ifs with h
  · rw [h]
    rfl
  · simp [Ordered.get?, Scalar.order_self]

theorem insert_row (h : count < rows) : (seeded settings count rows).insert (row count rows) =
    .ok (none, seeded settings (count + 1) rows) := by
  have hlocate : (seeded settings count rows).locate (row count rows).fields =
      .ok (place count rows) := Table.locate_eq_ok (locates_row count rows)
  have hafter : ∀ e ∈ stored count rows, e.1.order (.text (rowId count rows)) = .lt := by
    intro e he
    obtain ⟨i, hi, rfl⟩ := List.mem_map.1 he
    exact order_rowId (List.mem_range.1 hi) h
  have hnew : Ordered.get? (.text (rowId count rows)) (stored count rows) = none := by
    refine Option.eq_none_iff_forall_not_mem.2 fun value hvalue => ?_
    have hlt := hafter _ (Ordered.mem_of_get? hvalue)
    rw [Scalar.order_self] at hlt
    cases hlt
  have hpartitions : Ordered.insert (.text tenant) (stored (count + 1) rows)
      (seeded settings count rows).partitions = [(.text tenant, stored (count + 1) rows)] := by
    rw [seeded]
    split_ifs
    · rfl
    · simp [Ordered.insert, Scalar.order_self]
  rw [Table.insert, hlocate]
  simp only [place, Table.rowAt, partition_seeded, hnew, Ordered.insert_of_after hafter,
    ← stored_succ, hpartitions]
  rfl

theorem insertAll_rows : ∀ {left count : Nat}, count + left = rows →
    insertAll (seeded settings count rows) ((List.range' count left).map (row · rows)) =
      .ok (seeded settings rows rows)
  | 0, count, h => by
    obtain rfl : count = rows := h
    rfl
  | left + 1, count, h => by
    rw [List.range'_succ, List.map_cons, insertAll, insert_row (by omega)]
    exact insertAll_rows (by omega)

/-- **Seeding gives the table of the whole seed.** -/
theorem seed_eq (settings : PagingSettings) (rows : Nat) :
    seed settings rows = .ok (seeded settings rows rows) := by
  rw [seed, List.range_eq_range']
  exact insertAll_rows (Nat.zero_add rows)

theorem sorted_stored (h : count ≤ rows) : Ordered.Sorted (stored count rows) := by
  rw [Ordered.Sorted, stored, List.pairwise_map]
  refine List.pairwise_lt_range.imp_of_mem fun hi hj hij => ?_
  exact order_rowId hij (Nat.lt_of_lt_of_le (List.mem_range.1 hj) h)

theorem wellFormed_seeded (h : count ≤ rows) : (seeded settings count rows).WellFormed := by
  have hcases {p : Scalar × Partition} (hp : p ∈ (seeded settings count rows).partitions) :
      count ≠ 0 ∧ p = (.text tenant, stored count rows) := by
    rw [seeded] at hp
    split_ifs at hp with hcount
    · exact absurd hp List.not_mem_nil
    · exact ⟨hcount, List.mem_singleton.1 hp⟩
  refine ⟨?_, fun p hp => ?_, fun p hp => ?_, fun p hp e he => ?_⟩
  · rw [seeded]
    split_ifs
    · exact List.Pairwise.nil
    · exact List.pairwise_singleton _ _
  · rw [(hcases hp).2]
    exact sorted_stored h
  · obtain ⟨hcount, rfl⟩ := hcases hp
    simp [stored, hcount]
  · obtain ⟨-, rfl⟩ := hcases hp
    obtain ⟨i, -, rfl⟩ := List.mem_map.1 he
    exact locates_row i rows

theorem entries_seeded (settings : PagingSettings) (count rows : Nat) :
    (seeded settings count rows).entries =
      (List.range count).map fun i => (place i rows, row i rows) := by
  rw [Table.entries, seeded]
  split_ifs with h
  · rw [h]
    rfl
  · rw [List.flatMap_singleton, Table.located, stored, List.map_map]
    rfl

theorem size_seeded (settings : PagingSettings) (count rows : Nat) :
    (seeded settings count rows).size = count := by
  rw [← Table.length_entries, entries_seeded, List.length_map, List.length_range]

theorem get_key (h : i < rows) :
    (seeded settings rows rows).get (key i rows) = .ok (some (row i rows)) := by
  have hlocate : (seeded settings rows rows).locate (key i rows).fields = .ok (place i rows) :=
    Table.locate_eq_ok (locates_key i rows)
  have hrow : (seeded settings rows rows).rowAt (place i rows) = some (row i rows) := by
    rw [Table.rowAt_eq_some_iff (wellFormed_seeded (Nat.le_refl rows)), entries_seeded]
    exact List.mem_map_of_mem (List.mem_range.2 h)
  rw [Table.get, hlocate, ← hrow]
  rfl

/-! ## Reading -/

/-- A request for the seeded table that reads all of it, in its order. -/
structure Reads (r : Request) : Prop where
  table : r.table = tableName
  covers : ∀ i rows, r.covers (place i rows) = true
  forward : r.forward = true
  filters : r.filters = []

variable {r : Request}

theorem Reads.fits (h : Reads r) : r.Fits (seeded settings count rows) := ⟨h.table, fun _ => rfl⟩

/-- **The whole seed is read in its order.** -/
theorem reads_seeded (h : Reads r) (settings : PagingSettings) (count rows : Nat) :
    r.reads (seeded settings count rows) =
      (List.range count).map fun i => (place i rows, row i rows) := by
  have hall : (seeded settings count rows).entries.filter (r.covers ·.1) =
      (seeded settings count rows).entries := by
    refine List.filter_eq_self.2 fun e he => ?_
    rw [entries_seeded] at he
    obtain ⟨i, -, rfl⟩ := List.mem_map.1 he
    exact h.covers i rows
  rw [Request.reads, hall, if_pos h.forward, entries_seeded]

theorem readsAfter_seeded (h : Reads r) (hi : i < rows) :
    r.readsAfter (seeded settings rows rows) (some (place i rows)) =
      (List.range' (i + 1) (rows - (i + 1))).map fun j => (place j rows, row j rows) := by
  have hsplit : List.range rows = List.range i ++ i :: List.range' (i + 1) (rows - (i + 1)) := by
    have hlength : rows = i + (rows - (i + 1) + 1) := by omega
    rw [List.range_eq_range', List.range_eq_range', ← List.range'_succ]
    conv_lhs => rw [hlength]
    rw [← List.range'_append_1, Nat.zero_add]
  have hread : r.readsAfter (seeded settings rows rows) none =
      (List.range i).map (fun j => (place j rows, row j rows)) ++ (place i rows, row i rows) ::
        (List.range' (i + 1) (rows - (i + 1))).map fun j => (place j rows, row j rows) := by
    rw [Request.readsAfter, reads_seeded h, hsplit, List.map_append, List.map_cons]
  have hstart (a : Location) (ha : none = some a) : a.Sound :=
    absurd ha (Option.some_ne_none a).symm
  exact Request.readsAfter_of_split (wellFormed_seeded (Nat.le_refl rows)) hstart hread

theorem select_eq (h : Reads r) (entries : List (Location × Record)) :
    r.select entries = entries.map (·.2) := by
  rw [Request.select, h.filters]
  exact List.filter_eq_self.2 fun _ _ => rfl

end Demo

end CursorPaging
