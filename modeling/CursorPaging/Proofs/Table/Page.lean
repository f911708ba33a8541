import CursorPaging.Proofs.Table.Request

/-!
# Pages of a table

A page goes on strictly after a location, whether a row is stored there or not.

* `queryRows_eq`, `scanRows_eq`: what a table reads for a page are the rows after the start;
* `PageOf`, `readPage_pageOf`: what a page of some rows is; `query_of_start`, `scan_of_names`: when
  a request is answered by one;
* **`PageAfter`**, **`page_after`**: a page is a piece of what is left, and its last key is that of
  the last row read.
-/

namespace CursorPaging

namespace Request

variable {r : Request} {t : Table} {loc : Location} {row : Record}

/-! ## What a table reads for a page -/

section Rows

variable {q : QueryRequest} {s : ScanRequest} {range : Scalar}

theorem filter_located (hash : Scalar) (rows : Partition) (p : Location × Record → Bool) :
    (Table.located hash rows).filter p =
      Table.located hash (rows.filter fun e => p ((hash, e.1), e.2)) := List.filter_map

theorem map_snd_located (hash : Scalar) (rows : Partition) :
    (Table.located hash rows).map (·.2) = rows.map (·.2) := by
  rw [Table.located, List.map_map]
  rfl

theorem reads_query (h : t.WellFormed) : (query q).reads t =
    Table.located q.hash ((Table.walk (t.partition q.hash) none q.forward).filter
      fun e => q.range.all (·.holds e.1)) := by
  have hrows : t.entries.filter ((query q).covers ·.1) =
      Table.located q.hash ((t.partition q.hash).filter fun e => q.range.all (·.holds e.1)) := by
    rw [← filter_located q.hash _ fun e => q.range.all (·.holds e.1.2),
      Table.partition_eq_filter h, List.filter_filter]
    exact List.filter_congr fun e _ => Bool.and_comm _ _
  unfold reads
  rw [hrows]
  cases hforward : q.forward with
  | true => simp [forward, hforward, Table.walk]
  | false => simp [forward, hforward, Table.walk, Table.located, List.filter_reverse]

theorem readsAfter_query (h : t.WellFormed) (hrange : range.Sound) :
    (query q).readsAfter t (some (q.hash, range)) =
      Table.located q.hash ((Table.walk (t.partition q.hash) (some range) q.forward).filter
        fun e => q.range.all (·.holds e.1)) := by
  have hsorted := h.sorted_partition q.hash
  have hsound := h.sound_partition q.hash
  rw [readsAfter, reads_query h, filter_located]
  congr 1
  cases hforward : q.forward with
  | true =>
    simp only [Table.walk, Ordered.after_eq_filter hrange hsorted hsound, List.filter_filter]
    refine List.filter_congr fun e _ => ?_
    simp [Ahead, forward, hforward, Location.before_iff, Scalar.order_self, Bool.and_comm]
  | false =>
    simp only [Table.walk, Ordered.before_eq_filter hrange hsorted hsound, List.filter_filter,
      List.filter_reverse]
    refine congrArg List.reverse (List.filter_congr fun e _ => ?_)
    simp [Ahead, forward, hforward, Location.before_iff, Scalar.order_self, Bool.and_comm]

theorem queryRows_eq (h : t.WellFormed) (start : Option Scalar)
    (hstart : ∀ range, start = some range → range.Sound) :
    t.queryRows q start = ((query q).readsAfter t (start.map (q.hash, ·))).map (·.2) := by
  cases start with
  | none => rw [Option.map_none, readsAfter, reads_query h, map_snd_located]; rfl
  | some range =>
    rw [Option.map_some, readsAfter_query h (hstart range rfl), map_snd_located]
    rfl

theorem flatMap_filter_eq {α β : Type} {p : α → Bool} {f g : α → List β} :
    ∀ {l : List α}, (∀ a ∈ l, (if p a then f a else []) = g a) →
      (l.filter p).flatMap f = l.flatMap g
  | [], _ => rfl
  | a :: l, h => by
    obtain ⟨ha, hl⟩ := List.forall_mem_cons.1 h
    have ih := flatMap_filter_eq hl
    rw [List.flatMap_cons, ← ha, ← ih, List.filter_cons]
    split_ifs <;> rfl

theorem reads_scan : (scan s).reads t = t.entries := List.filter_eq_self.2 fun _ _ => rfl

theorem scanRows_eq (h : t.WellFormed) (start : Option Location)
    (hstart : ∀ loc, start = some loc → loc.Sound) :
    t.scanRows start = ((scan s).readsAfter t start).map (·.2) := by
  cases start with
  | none =>
    rw [readsAfter, reads_scan, Table.entries, List.map_flatMap]
    simp only [map_snd_located]
    rfl
  | some loc =>
    obtain ⟨hash, range⟩ := loc
    obtain ⟨hhash, hrange⟩ := hstart _ rfl
    rw [readsAfter, reads_scan, Table.entries, List.filter_flatMap, List.map_flatMap,
      Table.scanRows,
      Ordered.startingAt_eq_filter hhash h.partitions h.sound_partitions]
    refine flatMap_filter_eq fun p hp => ?_
    have hbefore (e : Scalar × Record) : (scan s).Ahead (hash, range) (p.1, e.1) ↔
        hash.order p.1 = .lt ∨ hash = p.1 ∧ range.order e.1 = .lt := Location.before_iff
    rw [filter_located, map_snd_located]
    simp only [hbefore]
    cases horder : hash.order p.1 with
    | lt =>
      have hne : hash ≠ p.1 := fun heq => by
        rw [Scalar.order_eq_iff.2 heq] at horder
        cases horder
      rw [if_neg hne, List.filter_eq_self.2 fun e _ => by simp]
      simp [Table.walk]
    | eq =>
      have heq : hash = p.1 := Scalar.order_eq_iff.1 horder
      simp [heq, Table.walk, Ordered.after_eq_filter hrange (h.rows p hp) (h.sound_rows hp)]
    | gt =>
      have hne : hash ≠ p.1 := fun heq => by
        rw [Scalar.order_eq_iff.2 heq] at horder
        cases horder
      simp [hne]

end Rows

/-! ## One page -/

/-- A page after a location: all that is left, or a piece of it with the key of its last row. -/
inductive PageAfter (r : Request) (t : Table) (start : Option Location) (output : PageOutput) : Prop
  | last (items : output.items = r.select (r.readsAfter t start)) (lastKey : output.lastKey = none)
  | more (read rest : List (Location × Record)) (loc : Location) (row : Record) (key : ResumeKey)
      (split : r.readsAfter t start = read ++ (loc, row) :: rest)
      (items : output.items = r.select (read ++ [(loc, row)]))
      (lastKey : output.lastKey = some key) (located : t.schema.Locates key.fields loc)

/-- A page of some rows, with some size and filters: it reads the first of them, hands out those
that pass, and has the key of the last one read if there are more. -/
structure PageOf (t : Table) (size : Nat) (filters : List Filter) (rows : List (Location × Record))
    (output : PageOutput) : Prop where
  evaluated : output.evaluated = (rows.take size).length
  items : output.items = ((rows.take size).map (·.2)).filter (passesAll filters)
  lastKey : output.lastKey.isSome = true ↔ (rows.take size).length < rows.length
  /-- Whether the last row passes the filters or not. -/
  key : ∀ key, output.lastKey = some key → ∃ loc row, (rows.take size).getLast? = some (loc, row) ∧
    ∀ field, key.fields.get? field =
      if field ∈ t.schema.fields then row.fields.get? field else none

theorem readPage_pageOf {size : Nat} (hsize : 1 ≤ size) {rows : List (Location × Record)}
    (hrows : ∀ e ∈ rows, t.schema.Locates e.2.fields e.1) (filters : List Filter) :
    ∃ output, t.readPage (rows.map (·.2)) size filters = .ok output ∧
      PageOf t size filters rows output := by
  unfold Table.readPage
  dsimp only
  rw [← List.map_take, ← List.map_drop, List.getLast?_map]
  by_cases hrest : rows.drop size = []
  · have hall : rows.take size = rows := List.take_of_length_le (List.drop_eq_nil_iff.1 hrest)
    rw [hrest, hall]
    exact ⟨_, rfl, by rw [hall, List.length_map], by rw [hall], by simp [hall], nofun⟩
  · have hlong : size < rows.length := by simpa using hrest
    have hread : rows.take size ≠ [] := by
      rw [Ne, List.take_eq_nil_iff, not_or]
      refine ⟨by omega, ?_⟩
      rintro rfl
      exact hrest List.drop_nil
    obtain ⟨read, ⟨loc, row⟩, hread⟩ := (List.eq_nil_or_concat _).resolve_left hread
    rw [List.concat_eq_append] at hread
    have hlocated : t.schema.Locates row.fields loc := by
      refine hrows (loc, row) (List.mem_of_mem_take (i := size) ?_)
      rw [hread]
      exact List.mem_append_right _ List.mem_cons_self
    obtain ⟨fields, hfields⟩ :=
      FieldMap.project_of_contains (m := row.fields) fun _ hfield => hlocated.contains hfield
    have hkey : row.project t.schema.fields = .ok ⟨fields⟩ := by rw [Record.project, hfields]; rfl
    have hopen : ((rows.drop size).map (·.2)).isEmpty = false := by
      simpa using hrest
    rw [hread, hopen, List.getLast?_concat, Option.map_some]
    simp only [hkey]
    refine ⟨_, rfl, by rw [hread, List.length_map], by rw [hread], ?_, ?_⟩
    · simp [hlong]
    · rintro _ ⟨⟩
      exact ⟨loc, row, by rw [hread, List.getLast?_concat], FieldMap.get?_project hfields⟩

/-- A page that points at more splits the rows after the last one that it read. -/
theorem PageOf.split {size : Nat} {filters : List Filter} {rows : List (Location × Record)}
    {output : PageOutput} {key : ResumeKey} (h : PageOf t size filters rows output)
    (hrows : ∀ e ∈ rows, t.schema.Locates e.2.fields e.1) (hkey : output.lastKey = some key) :
    ∃ read loc row, rows.take size = read ++ [(loc, row)] ∧
      rows = read ++ (loc, row) :: rows.drop size ∧ (loc, row) ∈ rows ∧
      t.schema.Locates key.fields loc := by
  obtain ⟨loc, row, hlast, hfields⟩ := h.key key hkey
  obtain ⟨read, hread⟩ := List.getLast?_eq_some_iff.1 hlast
  have hsplit : rows = read ++ (loc, row) :: rows.drop size := by
    have hcut := List.take_append_drop size rows
    rw [hread, List.append_assoc] at hcut
    exact hcut.symm
  have hmem : (loc, row) ∈ rows := by
    rw [hsplit]
    exact List.mem_append_right _ List.mem_cons_self
  refine ⟨read, loc, row, hread, hsplit, hmem, (hrows _ hmem).congr fun field hfield => ?_⟩
  rw [hfields, if_pos hfield]

theorem queryStart_of_names {q : QueryRequest} {key : ResumeKey}
    (hnames : t.schema.Names key.fields loc) (howns : loc.1 = q.hash) :
    t.queryStart q (some key) = .ok (some loc.2) := by
  rw [Table.queryStart, Table.locate_eq_ok_iff.2 hnames]
  simp only [if_pos howns]

theorem query_of_fits {q : QueryRequest} (hfits : (query q).Fits t) (start : Option ResumeKey) :
    t.query q start = (t.queryStart q start).bind fun range =>
      t.readPage (t.queryRows q range) (t.effectivePageSize q.pageSize) q.filters := by
  have hname : t.checkName q.table = .ok () := hfits.checkName
  have hrange : (q.range.isSome && t.schema.rangeKey.isNone) = false := by
    cases hcase : q.range.isSome with
    | false => rfl
    | true => simpa [Option.isNone_eq_false_iff] using hfits.range hcase
  rw [Table.query, hname, hrange]
  rfl

theorem query_of_start {q : QueryRequest} (hfits : (query q).Fits t) {start : Option ResumeKey}
    {range : Option Scalar} (hstart : t.queryStart q start = .ok range) : t.query q start =
      t.readPage (t.queryRows q range) (t.effectivePageSize q.pageSize) q.filters := by
  rw [query_of_fits hfits, hstart]
  rfl

theorem query_eq_readPage {q : QueryRequest} (h : t.WellFormed) (hfits : (query q).Fits t)
    {start : Option ResumeKey} {loc : Option Location}
    (hstart : (query q).StartsAt t.schema start loc) :
    t.query q start = t.readPage (((query q).readsAfter t loc).map (·.2))
      (t.effectivePageSize q.pageSize) q.filters := by
  cases hstart with
  | none => rw [query_of_start hfits rfl, queryRows_eq h none (by simp), Option.map_none]
  | @some key loc located owns =>
    obtain ⟨hash, range⟩ := loc
    obtain rfl : hash = q.hash := owns
    rw [query_of_start hfits (queryStart_of_names located.names rfl),
      queryRows_eq h (some range) fun _ heq => Option.some.inj heq ▸ located.sound.range,
      Option.map_some]

theorem scan_of_names {s : ScanRequest} (hfits : (scan s).Fits t) {key : ResumeKey}
    (hnames : t.schema.Names key.fields loc) : t.scan s (some key) =
      t.readPage (t.scanRows (some loc)) (t.effectivePageSize s.pageSize) s.filters := by
  have hname : t.checkName s.table = .ok () := hfits.checkName
  rw [Table.scan, hname]
  simp only [Table.locate_eq_ok_iff.2 hnames]
  rfl

theorem scan_eq_readPage {s : ScanRequest} (h : t.WellFormed) (hfits : (scan s).Fits t)
    {start : Option ResumeKey} {loc : Option Location}
    (hstart : (scan s).StartsAt t.schema start loc) :
    t.scan s start = t.readPage (((scan s).readsAfter t loc).map (·.2))
      (t.effectivePageSize s.pageSize) s.filters := by
  cases hstart with
  | none =>
    have hname : t.checkName s.table = .ok () := hfits.checkName
    rw [Table.scan, hname, ← scanRows_eq h none (by simp)]
    rfl
  | @some key loc located owns =>
    rw [scan_of_names hfits located.names,
      scanRows_eq h (some loc) fun _ heq => Option.some.inj heq ▸ located.sound]

theorem page_eq_readPage (h : t.WellFormed) (hfits : r.Fits t) {start : Option ResumeKey}
    {loc : Option Location} (hstart : r.StartsAt t.schema start loc) :
    r.page t start = (t.readPage ((r.readsAfter t loc).map (·.2))
      (t.effectivePageSize r.pageSize) r.filters, t) := by
  cases r with
  | query q => exact Prod.ext (query_eq_readPage h hfits hstart) rfl
  | scan s => exact Prod.ext (scan_eq_readPage h hfits hstart) rfl

/-- **One page**: a request that fits a table is answered after every location. -/
theorem page_after (h : t.WellFormed) (hfits : r.Fits t) {start : Option ResumeKey}
    {loc : Option Location} (hstart : r.StartsAt t.schema start loc) :
    ∃ output, r.page t start = (.ok output, t) ∧ r.PageAfter t loc output := by
  have hrows : ∀ e ∈ r.readsAfter t loc, t.schema.Locates e.2.fields e.1 :=
    fun e he => locates_of_mem_reads h ((readsAfter_sublist r t loc).subset he)
  obtain ⟨output, hpage, houtput⟩ :=
    readPage_pageOf (Nat.le_max_left 1 (r.pageSize.getD t.pageSize)) hrows r.filters
  refine ⟨output, by rw [page_eq_readPage h hfits hstart, Table.effectivePageSize, hpage], ?_⟩
  cases hkey : output.lastKey with
  | none =>
    have hall := not_lt.1 (mt houtput.lastKey.2 (by simp [hkey]))
    refine .last ?_ hkey
    rw [houtput.items, (List.take_sublist _ _).eq_of_length_le hall]
    rfl
  | some key =>
    obtain ⟨read, a, row, hread, hsplit, -, hat⟩ := houtput.split hrows hkey
    exact .more read _ a row key hsplit (by rw [houtput.items, hread]; rfl) hkey hat

end Request

end CursorPaging
