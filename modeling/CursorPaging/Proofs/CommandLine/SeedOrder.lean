import CursorPaging.Proofs.CommandLine.Modes

/-!
# The order of the seed

Ids of one seed have one length and are in the order of their indices, also byte by byte. So no row
of the seed replaces another, and every walk of its partition hands the rows out in the order in
which they were put in.

* `size_rowId`, `encode_rowId_lt`: the bytes of an id; `row_ne_row`: rows differ;
* `wholePartition`: a query without conditions; `exists_plays_rows`: what its source plays;
* **`seed_in_order`**.
-/

namespace CursorPaging

-- powers are those of the core library
attribute [local instance (10000)] instPowNat

namespace Demo

variable {i j rows : Nat}

/-! ## The bytes of an id -/

theorem toNat_lt_of_mem_padded {width n : Nat} {c : Char} (h : c ∈ padded width n) :
    c.toNat < 128 := by
  rcases List.mem_append.1 h with h | h
  · rw [List.eq_of_mem_replicate h]
    decide
  · have hdigit := Nat.isDigit_of_mem_toDigits (by decide) (by decide) h
    simp only [Char.isDigit, Bool.and_eq_true, decide_eq_true_eq] at hdigit
    exact Nat.lt_of_le_of_lt (UInt32.le_iff_toNat_le.1 hdigit.2) (by decide)

theorem toNat_lt_of_mem_rowId {c : Char} (h : c ∈ (rowId i rows).toList) : c.toNat < 128 := by
  rw [rowId, String.toList_ofList, List.mem_cons, List.mem_cons] at h
  rcases h with rfl | rfl | h
  · decide
  · decide
  · exact toNat_lt_of_mem_padded h

theorem size_rowId (h : i < rows) :
    Utf8.size (rowId i rows) = (Nat.toDigits 10 (rows - 1)).length + 2 := by
  have hbytes :=
    Utf8.encode_ascii fun c (hc : c ∈ (rowId i rows).toList) => toNat_lt_of_mem_rowId hc
  rw [← String.ofList_toList (s := rowId i rows), Utf8.size_ofList, hbytes, List.length_map,
    String.length_toList, length_rowId h]

theorem encode_rowId_lt (h : i < j) (hj : j < rows) :
    Utf8.encode (rowId i rows).toList < Utf8.encode (rowId j rows).toList :=
  Utf8.encode_lt_encode (fun _ => toNat_lt_of_mem_rowId) (fun _ => toNat_lt_of_mem_rowId)
    (rowId_lt_rowId h hj)

theorem row_ne_row (h : i < j) (hj : j < rows) : row i rows ≠ row j rows := by
  intro heq
  have hid (k : Nat) : (row k rows).fields.get? "id" = some (.text (rowId k rows)) :=
    ((locates_row k rows).range "id" rfl).1
  have hsame : Scalar.text (rowId i rows) = .text (rowId j rows) :=
    Option.some.inj ((hid i).symm.trans (heq ▸ hid j))
  have horder := order_rowId h hj
  rw [hsame, Scalar.order_self] at horder
  cases horder

theorem nodup_rows (rows : Nat) : ((List.range rows).map (row · rows)).Nodup := by
  rw [List.Nodup, List.pairwise_map]
  refine List.pairwise_lt_range.imp_of_mem fun _ hj hij => ?_
  exact row_ne_row hij (List.mem_range.1 hj)

/-! ## Walks -/

/-- The query of the whole partition, with pages of any size. -/
def wholePartition (pageSize : Option Nat) : QueryRequest :=
  ⟨tableName, .text tenant, none, [], pageSize, true⟩

theorem reads_wholePartition (pageSize : Option Nat) : Reads (.query (wholePartition pageSize)) :=
  ⟨rfl, fun _ _ => rfl, rfl, rfl⟩

theorem make_wholePartition (settings : PagingSettings) (rows : Nat) (pageSize : Option Nat) :
    QuerySource.make (seeded settings rows rows) (wholePartition pageSize) =
      .ok ⟨seeded settings rows rows, wholePartition pageSize, .start schema⟩ := by
  have hschema : Store.keySchema (seeded settings rows rows) (wholePartition pageSize).table =
      .ok _ := (reads_wholePartition pageSize).fits.keySchema
  rw [QuerySource.make, hschema]
  rfl

theorem exists_plays_rows (settings : PagingSettings) (rows : Nat) (pageSize : Option Nat) :
    ∃ outcomes, Plays (⟨seeded settings rows rows, wholePartition pageSize, .start schema⟩ :
        QuerySource Table) outcomes ∧ outcomes.length ≤ rows + 1 ∧
      effective outcomes = ((List.range rows).map (row · rows), none) := by
  have hreads := reads_wholePartition pageSize
  obtain ⟨hat, hmore⟩ := CommandLine.at_start rfl rfl rfl (r := .query (wholePartition pageSize))
    (w := .query ⟨seeded settings rows rows, wholePartition pageSize, .start schema⟩)
  obtain ⟨n, hn, hyields⟩ :=
    WalkSource.yields_walk (wellFormed_seeded (Nat.le_refl rows)) hreads.fits hat hmore
  rw [Request.readsAfter, reads_seeded hreads, select_eq hreads, List.map_map] at hyields
  rw [Request.readsAfter, reads_seeded hreads, List.length_map, List.length_range] at hn
  obtain ⟨outcomes, hplays, hlength, heffective⟩ := hyields.exists_plays
  exact ⟨outcomes, hplays.of_map QuerySource.walks.toSourceMap rfl, hlength ▸ hn, heffective⟩

theorem collect_rows {α : Type} (settings : PagingSettings) (rows : Nat) (pageSize : Option Nat)
    (codec : PositionCodec) (m : Record → Except PagingError α) {fuel : Nat} (hfuel : rows < fuel)
    (max : Nat) :
    ((Pager.make (⟨seeded settings rows rows, wholePartition pageSize, .start schema⟩ :
        QuerySource Table) codec m).iterate.1.collect fuel max).map (·.1) =
      some (((List.range rows).map fun i => m (row i rows)).take max) := by
  obtain ⟨outcomes, hplays, hlength, heffective⟩ := exists_plays_rows settings rows pageSize
  have hfetches : outcomes.length ≤ fuel := by omega
  have hcollect := Traversal.collect_holds (t := Traversal.start _ .unbounded codec m) max
    ⟨outcomes, hplays, hfetches, rfl, rfl⟩ (by simp [Traversal.start])
  refine hcollect.trans ?_
  rw [heffective]
  simp [handsOut, Limit.cut, Limit.unbounded, Traversal.start, Function.comp_def]

/-- **The seed is in order**: an earlier id is less than a later one and of the same size. So every
walk of the seeded partition hands all rows out in the order of the seed and then ends. -/
theorem seed_in_order {α : Type} (settings : PagingSettings) (rows : Nat) :
    (∀ i j, i < j → j < rows →
      (Scalar.text (rowId i rows)).order (.text (rowId j rows)) = .lt ∧
      Utf8.encode (rowId i rows).toList < Utf8.encode (rowId j rows).toList ∧
      Utf8.size (rowId i rows) = Utf8.size (rowId j rows)) ∧
    ∃ t, seed settings rows = .ok t ∧ t.size = rows ∧
      t.partition (.text tenant) =
        (List.range rows).map (fun i => (.text (rowId i rows), row i rows)) ∧
      ((List.range rows).map (row · rows)).Nodup ∧
      ∀ pageSize : Option Nat, ∃ source,
        QuerySource.make t ⟨tableName, .text tenant, none, [], pageSize, true⟩ = .ok source ∧
        ∀ (codec : PositionCodec) (m : Record → Except PagingError α) (fuel max : Nat),
          rows < fuel → ((Pager.make source codec m).iterate.1.collect fuel max).map (·.1) =
            some (((List.range rows).map fun i => m (row i rows)).take max) := by
  refine ⟨fun i j h hj => ⟨order_rowId h hj, encode_rowId_lt h hj, ?_⟩, ?_⟩
  · rw [size_rowId (h.trans hj), size_rowId hj]
  · exact ⟨_, seed_eq settings rows, size_seeded settings rows rows,
      partition_seeded settings rows rows, nodup_rows rows, fun pageSize =>
        ⟨_, make_wholePartition settings rows pageSize, fun codec m _ max hfuel =>
          collect_rows settings rows pageSize codec m hfuel max⟩⟩

/-- Ids are padded to the length of the last one. -/
example : [rowId 9 10, rowId 9 11, rowId 9 1001] = ["H_9", "H_09", "H_0009"] := by
  decide +kernel

end Demo

end CursorPaging
