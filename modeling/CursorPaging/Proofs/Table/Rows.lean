import CursorPaging.Proofs.Table.Stored

/-!
# Rows on pages

Whatever a page starts after, its rows are stored rows, those of a query in the partition that it
names. A page is answered once the checks before it pass, as every stored row has a key.

* `walk_suffix`, `walk_pairwise`: what is left of a walk; `mem_queryRows`, `mem_scanRows`: what a
  request reads is stored;
* `readPage_ok`: rows that have a key are made into a page; `query_cases`, `scan_cases`: a request
  is refused by the checks before it or answered by a page;
* **`mem_partition_of_query`**: what a query hands out is of its partition.
-/

namespace CursorPaging

namespace Table

variable {t : Table} {rows : List Record} {row : Record} {filters : List Filter} {size : Nat}
  {output : PageOutput} {q : QueryRequest} {s : ScanRequest} {start : Option ResumeKey}

/-! ## What a request reads -/

theorem walk_suffix (rows : Partition) (start : Option Scalar) (forward : Bool) :
    walk rows start forward <:+ walk rows none forward := by
  cases start with
  | none => exact List.suffix_refl _
  | some range =>
    cases forward with
    | true => exact Ordered.after_suffix rows
    | false => exact List.reverse_suffix.2 (Ordered.before_prefix rows)

theorem walk_ascending (rows : Partition) (start : Option Scalar) :
    (walk rows start true).Sublist rows :=
  (walk_suffix rows start true).sublist

theorem walk_descending (rows : Partition) (start : Option Scalar) :
    (walk rows start false).Sublist rows.reverse :=
  (walk_suffix rows start false).sublist

/-- **A walk is strictly monotone**, in either direction. -/
theorem walk_pairwise (h : t.WellFormed) (hash : Scalar) (start : Option Scalar) :
    ((walk (t.partition hash) start true).Pairwise fun a b => a.1.order b.1 = .lt) ∧
      (walk (t.partition hash) start false).Pairwise fun a b => b.1.order a.1 = .lt :=
  ⟨(h.sorted_partition hash).sublist (walk_ascending _ start),
    (List.pairwise_reverse.2 (h.sorted_partition hash)).sublist (walk_descending _ start)⟩

theorem mem_of_mem_walk {rows : Partition} {start : Option Scalar} {forward : Bool}
    {e : Scalar × Record} (h : e ∈ walk rows start forward) : e ∈ rows := by
  cases forward with
  | true => exact (walk_ascending rows start).subset h
  | false => exact List.mem_reverse.1 ((walk_descending rows start).subset h)

theorem mem_queryRows {range : Option Scalar} (h : row ∈ t.queryRows q range) :
    ∃ e ∈ t.partition q.hash, e.2 = row := by
  obtain ⟨e, he, hrow⟩ := List.mem_map.1 h
  exact ⟨e, mem_of_mem_walk (List.mem_filter.1 he).1, hrow⟩

theorem mem_scanRows {loc : Option Location} (h : row ∈ t.scanRows loc) :
    ∃ p ∈ t.partitions, ∃ e ∈ p.2, e.2 = row := by
  rcases loc with _ | ⟨hash, range⟩
  · obtain ⟨p, hp, hrow⟩ := List.mem_flatMap.1 h
    exact ⟨p, hp, List.mem_map.1 hrow⟩
  · obtain ⟨p, hp, hrow⟩ := List.mem_flatMap.1 h
    obtain ⟨e, he, hrow⟩ := List.mem_map.1 hrow
    exact ⟨p, (Ordered.startingAt_suffix _).subset hp, e, mem_of_mem_walk he, hrow⟩

/-! ## Pages -/

theorem mem_items_of_readPage (h : t.readPage rows size filters = .ok output)
    (hrow : row ∈ output.items) : row ∈ rows := by
  have hread (hitem : row ∈ (rows.take size).filter (passesAll filters)) : row ∈ rows :=
    List.mem_of_mem_take (List.mem_filter.1 hitem).1
  unfold readPage at h
  dsimp only at h
  split at h
  · split at h
    · cases h
      exact hread hrow
    · cases h
  · cases h
    exact hread hrow

theorem readPage_ok (hrows : ∀ row ∈ rows, ∀ field ∈ t.schema.fields,
    row.fields.contains field = true) : ∃ output, t.readPage rows size filters = .ok output := by
  unfold readPage
  dsimp only
  split
  · rename_i last hopen hlast
    have hmem : last ∈ rows := List.mem_of_mem_take (List.mem_of_getLast? hlast)
    obtain ⟨fields, hfields⟩ := FieldMap.project_of_contains (hrows last hmem)
    rw [Record.project, hfields]
    exact ⟨_, rfl⟩
  · exact ⟨_, rfl⟩

theorem query_cases (t : Table) (q : QueryRequest) (start : Option ResumeKey) :
    (∃ e, t.checkName q.table = .error e ∧ t.query q start = .error e) ∨
      (q.range.isSome = true ∧ t.schema.rangeKey = none ∧
        t.query q start = .error (t.invalid .noRangeKey)) ∨
      (∃ e, t.queryStart q start = .error e ∧ t.query q start = .error e) ∨
      ∃ range, t.queryStart q start = .ok range ∧ t.query q start =
        t.readPage (t.queryRows q range) (t.effectivePageSize q.pageSize) q.filters := by
  unfold query
  cases hname : t.checkName q.table with
  | error e => exact .inl ⟨e, rfl, rfl⟩
  | ok _ =>
    cases hrange : q.range.isSome && t.schema.rangeKey.isNone with
    | true =>
      rw [Bool.and_eq_true, Option.isNone_iff_eq_none] at hrange
      exact .inr (.inl ⟨hrange.1, hrange.2, rfl⟩)
    | false =>
      cases hstart : t.queryStart q start with
      | error e => exact .inr (.inr (.inl ⟨e, rfl, rfl⟩))
      | ok range => exact .inr (.inr (.inr ⟨range, rfl, rfl⟩))

theorem scan_cases (t : Table) (s : ScanRequest) (start : Option ResumeKey) :
    (∃ e, t.checkName s.table = .error e ∧ t.scan s start = .error e) ∨
      (∃ key e, start = some key ∧ t.locate key.fields = .error e ∧ t.scan s start = .error e) ∨
      ∃ loc, t.scan s start =
        t.readPage (t.scanRows loc) (t.effectivePageSize s.pageSize) s.filters := by
  unfold scan
  cases hname : t.checkName s.table with
  | error e => exact .inl ⟨e, rfl, rfl⟩
  | ok _ =>
    cases start with
    | none => exact .inr (.inr ⟨none, rfl⟩)
    | some key =>
      dsimp only
      cases hlocate : t.locate key.fields with
      | error e => exact .inr (.inl ⟨key, e, rfl, hlocate, rfl⟩)
      | ok loc => exact .inr (.inr ⟨some loc, rfl⟩)

/-- **The rows that a query hands out** are rows of its partition. -/
theorem mem_partition_of_query (h : t.query q start = .ok output) (hrow : row ∈ output.items) :
    ∃ e ∈ t.partition q.hash, e.2 = row := by
  rcases query_cases t q start with ⟨e, -, herror⟩ | ⟨-, -, herror⟩ | ⟨e, -, herror⟩ |
    ⟨range, -, hpage⟩
  · cases herror.symm.trans h
  · cases herror.symm.trans h
  · cases herror.symm.trans h
  · exact mem_queryRows (mem_items_of_readPage (hpage.symm.trans h) hrow)

end Table

end CursorPaging
