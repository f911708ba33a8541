import CursorPaging.Proofs.Live.Coverage

/-!
# Walks and what they have covered

What every event keeps: the rows that were handed out, then those in the buffer, are what the walk
and those before it found, and the cursor stands right behind what they covered.

* **`Tracks`**: a walk with the rows handed out, the rows in its buffer and the location of its
  cursor;
* `Tracks.fresh`, `Tracks.fetch`, `Tracks.take`: a fresh walk, one more page, and one more row
  handed out;
* **`Tracks.ask`**: a call;
* `Tracks.position_cases`, **`Tracks.exists_restart`**: its token, and the walk that goes on from
  it.
-/

namespace CursorPaging

variable {α : Type} {r : Request} {t u : Table} {allowed : List Table.Edit} {codec : PositionCodec}
  {m : Record → Except PagingError α}

theorem Table.Live.editAll (h : u.Live r t allowed) (hfinite : ∀ e ∈ allowed, e.Finite t.schema)
    {edits : List Table.Edit} (hedits : edits ⊆ allowed) : (u.editAll edits).Live r t allowed := by
  have hshape := Table.editAll_sameShape u edits
  obtain ⟨earlier, hearlier, hmade⟩ := h.made
  refine ⟨Table.wellFormed_editAll h.wellFormed fun e he => ?_, ⟨?_, ?_⟩, ?_, earlier ++ edits,
    ?_, ?_⟩
  · rw [h.schema]
    exact hfinite e (hedits he)
  · exact h.fits.name.trans hshape.name.symm
  · rw [hshape.schema]
    exact h.fits.range
  · exact hshape.schema.trans h.schema
  · exact List.append_subset.2 ⟨hearlier, hedits⟩
  · rw [hmade, Table.editAll, Table.editAll, Table.editAll, List.foldl_append]

/-- The edits that come in before a fetch are among those that may. -/
theorem LiveTable.settle_live {store : LiveTable} (htable : store.table.Live r t allowed)
    (harriving : ∀ edits ∈ store.arriving, edits ⊆ allowed)
    (hfinite : ∀ e ∈ allowed, e.Finite t.schema) : store.settle.table.Live r t allowed ∧
      (∀ edits ∈ store.settle.arriving, edits ⊆ allowed) ∧ store.settle.seen = store.seen := by
  rw [settle]
  cases hcase : store.arriving with
  | nil => exact ⟨htable, by simp [hcase], rfl⟩
  | cons edits rest =>
    rw [hcase, List.forall_mem_cons] at harriving
    exact ⟨htable.editAll hfinite harriving.1, harriving.2, rfl⟩

/-- A walk over a table that changes, with the rows that it and those before it handed out, the rows
in its buffer, and the location of its cursor. -/
structure Tracks (r : Request) (t : Table) (allowed : List Table.Edit) (codec : PositionCodec)
    (m : Record → Except PagingError α) (walk : Traversal (WalkSource LiveTable) α)
    (walked buffered : List (Location × Record)) (start : Option Location) : Prop where
  request : ∃ pageSize, walk.source.request = r.withPageSize pageSize
  table : walk.source.store.table.Live r t allowed
  arriving : ∀ edits ∈ walk.source.store.arriving, edits ⊆ allowed
  schema : walk.source.cursor.schema = t.schema
  startsAt : r.StartsAt t.schema walk.source.cursor.startKey start
  coverage : Coverage r t allowed walk.source.store.seen start walk.source.cursor.fetched
    (walked ++ buffered)
  buffer : walk.buffer = buffered.map (·.2)
  last : ∀ record, walk.lastExamined = some record → ∃ kept loc, walked = kept ++ [(loc, record)]
  codec : walk.codec = codec
  materialize : walk.materialize = m

namespace Tracks

variable {walk : Traversal (WalkSource LiveTable) α} {walked buffered : List (Location × Record)}
  {start : Option Location}

theorem fresh {source : WalkSource LiveTable} {store : LiveTable} {pageSize : Option Nat}
    {key : Option ResumeKey} {limit : Limit} (hstore : source.store = store)
    (hrequest : source.request = r.withPageSize pageSize)
    (hcursor : source.cursor = ⟨t.schema, key, false⟩) (hstarts : r.StartsAt t.schema key start)
    (htable : store.table.Live r t allowed) (harriving : ∀ edits ∈ store.arriving, edits ⊆ allowed)
    (hcoverage : Coverage r t allowed store.seen start false walked) :
    Tracks r t allowed codec m (Traversal.start source limit codec m) walked [] start := by
  subst hstore
  refine ⟨⟨pageSize, hrequest⟩, htable, harriving, ?_, ?_, ?_, rfl, ?_, rfl, rfl⟩
  · rw [Traversal.start, hcursor]
  · rw [Traversal.start, hcursor]
    exact hstarts
  · rw [Traversal.start, hcursor, List.append_nil]
    exact hcoverage
  · intro record hrecord
    cases hrecord

/-- **One more page**: it is read, and its records go behind the buffer. -/
theorem fetch (h : Tracks r t allowed codec m walk walked buffered start)
    (hfinite : ∀ e ∈ allowed, e.Finite t.schema) (hmore : PageSource.hasMore walk.source = true) :
    ∃ page source items next, PageSource.fetchPage walk.source = (.ok page, source) ∧
      Tracks r t allowed codec m
        { walk with source, pages := walk.pages + 1, buffer := walk.buffer ++ page.records }
        walked (buffered ++ items) next := by
  obtain ⟨pageSize, hrequest⟩ := h.request
  obtain ⟨store, hstore⟩ : ∃ store, walk.source.store.settle = store := ⟨_, rfl⟩
  have hsettled := LiveTable.settle_live h.table h.arriving hfinite
  rw [hstore] at hsettled
  obtain ⟨htable, harriving, hseen⟩ := hsettled
  have hopen : start = none → walk.source.cursor.fetched = false := by
    rintro rfl
    rw [WalkSource.hasMore_eq, StartCursor.hasMore, h.startsAt.isSome_eq] at hmore
    simpa using hmore
  have hstarts : (r.withPageSize pageSize).StartsAt store.table.schema
      walk.source.cursor.startKey start :=
    (Request.startsAt_withPageSize pageSize).2 (htable.schema ▸ h.startsAt)
  obtain ⟨output, hpage, hafter⟩ :=
    Request.page_after htable.wellFormed (Request.fits_withPageSize htable.fits pageSize) hstarts
  have hanswer : walk.source.request.page walk.source.store walk.source.cursor.startKey =
      (.ok output, { store with seen := store.seen ++ [(store.table, output)] }) := by
    rw [hrequest, LiveTable.page_eq_note, hstore, hpage]
    rfl
  obtain ⟨next, items, hitems, hnext, hcoverage⟩ := h.coverage.page htable
    (fun _ => h.startsAt.sound) hopen (Request.pageAfter_withPageSize hafter)
  refine ⟨_, _, items, next, WalkSource.fetchPage_of_page hanswer, ?_⟩
  refine ⟨⟨pageSize, ?_⟩, ?_, ?_, ?_, ?_, ?_, ?_, h.last, h.codec, h.materialize⟩
  · rw [WalkSource.request_put, hrequest]
  · rw [WalkSource.store_put]
    exact htable
  · rw [WalkSource.store_put]
    exact harriving
  · rw [WalkSource.cursor_put]
    exact h.schema
  · rw [WalkSource.cursor_put]
    exact hnext
  · rw [WalkSource.store_put, WalkSource.cursor_put, ← List.append_assoc, hseen]
    exact hcoverage
  · rw [List.map_append, hitems, h.buffer]
    rfl

theorem look {v : Traversal (WalkSource LiveTable) α} (hfinite : ∀ e ∈ allowed, e.Finite t.schema)
    (hlook : Traversal.Look walk v)
    (h : ∃ buffered start, Tracks r t allowed codec m walk walked buffered start) :
    ∃ buffered start, Tracks r t allowed codec m v walked buffered start := by
  obtain ⟨buffered, start, h⟩ := h
  cases hlook with
  | phase phase => exact ⟨buffered, start, { h with }⟩
  | page hmore hfetch =>
    obtain ⟨page, source, items, next, hfetch', hnext⟩ := h.fetch hfinite hmore
    rw [hfetch] at hfetch'
    cases hfetch'
    exact ⟨_, next, hnext⟩
  | failure hmore hfetch =>
    obtain ⟨page, source, items, next, hfetch', -⟩ := h.fetch hfinite hmore
    rw [hfetch] at hfetch'
    cases hfetch'

theorem take {record : Record} {rest : List Record}
    (h : Tracks r t allowed codec m walk walked buffered start)
    (hbuffer : walk.buffer = record :: rest) : ∃ loc buffered,
      Tracks r t allowed codec m (walk.take record rest) (walked ++ [(loc, record)]) buffered
        start := by
  rw [h.buffer] at hbuffer
  obtain ⟨⟨loc, record⟩, later, rfl, rfl, hrest⟩ := List.map_eq_cons_iff.1 hbuffer
  refine ⟨loc, later, { h with coverage := ?_, buffer := hrest.symm, last := ?_ }⟩
  · rw [List.append_assoc]
    exact h.coverage
  · intro other hother
    cases hother
    exact ⟨walked, loc, rfl⟩

theorem onTable {f : LiveTable → LiveTable}
    (h : Tracks r t allowed codec m walk walked buffered start)
    (hseen : (f walk.source.store).seen = walk.source.store.seen)
    (htable : (f walk.source.store).table.Live r t allowed)
    (harriving : ∀ edits ∈ (f walk.source.store).arriving, edits ⊆ allowed) :
    Tracks r t allowed codec m (walk.onTable f) walked buffered start := by
  obtain ⟨pageSize, hrequest⟩ := h.request
  refine ⟨⟨pageSize, ?_⟩, ?_, ?_, ?_, ?_, ?_, h.buffer, h.last, h.codec, h.materialize⟩
  · rw [Traversal.onTable, WalkSource.request_put, hrequest]
  · rw [Traversal.onTable, WalkSource.store_put]
    exact htable
  · rw [Traversal.onTable, WalkSource.store_put]
    exact harriving
  · rw [Traversal.onTable, WalkSource.cursor_put]
    exact h.schema
  · rw [Traversal.onTable, WalkSource.cursor_put]
    exact h.startsAt
  · rw [Traversal.onTable, WalkSource.store_put, WalkSource.cursor_put, hseen]
    exact h.coverage

/-- **A call** hands out results of rows that come next. -/
theorem ask {fuel : Nat} {call : Ask} {answer : Answer α} {v : Traversal (WalkSource LiveTable) α}
    (hfinite : ∀ e ∈ allowed, e.Finite t.schema)
    (h : Tracks r t allowed codec m walk walked buffered start)
    (hask : walk.ask fuel call = some (answer, v)) : ∃ taken buffered start,
      Tracks r t allowed codec m v (walked ++ taken) buffered start ∧
        answer.results = taken.filterMap fun e => (m e.2).toOption := by
  rcases Traversal.ask_cases hask with ⟨hlooks, hresults⟩ | ⟨record, htakes, hresults⟩
  · obtain ⟨buffered, start, hv⟩ := hlooks.keeps (look hfinite) ⟨buffered, start, h⟩
    refine ⟨[], buffered, start, ?_, hresults⟩
    rw [List.append_nil]
    exact hv
  · obtain ⟨w, rest, hlooks, hbuffer, -, rfl⟩ := htakes
    obtain ⟨buffered, start, hw⟩ := hlooks.keeps (look hfinite) ⟨buffered, start, h⟩
    obtain ⟨loc, later, htaken⟩ := hw.take hbuffer
    refine ⟨[(loc, record)], later, start, htaken, ?_⟩
    rw [hresults, h.materialize]
    cases hresult : m record <;> simp [hresult, Except.toOption]

/-! ## Tokens -/

/-- The token of a walk, if it has one, is that of the last row handed out. -/
theorem position_cases (h : Tracks r t allowed codec m walk walked buffered start) :
    walk.position = .ok none ∨ ∃ kept loc record key, walked = kept ++ [(loc, record)] ∧
      walk.position = .ok (some (PositionCodec.tokenOf key)) ∧ t.schema.Locates key.fields loc ∧
        key.fields.entries ≠ [] ∧ ∀ e ∈ key.fields.entries, e.2.IsKey := by
  have hschema : PageSource.keySchema walk.source = .ok t.schema := by
    rw [WalkSource.keySchema_eq, h.schema]
  rw [Traversal.position, Traversal.encodePosition, Traversal.resumeKey, hschema]
  simp only [Bool.false_eq_true, if_false, Traversal.currentKey]
  by_cases hphase : walk.phase = .exhausted
  · rw [if_pos hphase]
    exact .inl rfl
  · rw [if_neg hphase]
    cases hlast : walk.lastExamined with
    | none => exact .inl rfl
    | some record =>
      obtain ⟨kept, loc, rfl⟩ := h.last record hlast
      have hrow : (loc, record) ∈ (kept ++ [(loc, record)]) ++ buffered :=
        List.mem_append_left _ (List.mem_append_right _ List.mem_cons_self)
      obtain ⟨key, hkey, hat, hne, hisKey⟩ :=
        KeySchema.exists_project (h.coverage.located _ hrow)
      simp only [hkey, PositionCodec.encode_eq_ok walk.codec hne hisKey]
      exact .inr ⟨kept, loc, record, key, rfl, rfl, hat, hne, hisKey⟩

/-- **A walk that is given up goes on** from its token after the last row handed out. -/
theorem exists_restart {token : String} {limit : Option Nat}
    (h : Tracks r t allowed codec m walk walked buffered start)
    (htoken : walk.position = .ok (some token)) (hsize : Utf8.size token ≤ codec.maxTokenLength)
    (hlimit : limit ≠ some 0) (pageSize : Option Nat) : ∃ v start, v.phase = .fresh ∧
      openWalk walk.source.store (r.withPageSize pageSize) codec m limit (some token) = .ok v ∧
        Tracks r t allowed codec m v walked [] start := by
  rcases h.position_cases with hnone | ⟨kept, loc, record, key, rfl, hposition, hat, hne, hisKey⟩
  · rw [hnone] at htoken
    cases htoken
  · rw [htoken] at hposition
    cases hposition
    have hrow : (loc, record) ∈ (kept ++ [(loc, record)]) ++ buffered :=
      List.mem_append_left _ (List.mem_append_right _ List.mem_cons_self)
    have howns : r.Owns loc := by
      obtain ⟨p, -, hmatches, -⟩ := h.coverage.matched _ hrow
      exact Request.owns_of_covers hmatches.covers
    have hresumes : ResumesAt codec r t.schema (some (PositionCodec.tokenOf key)) (some loc) :=
      .some (PositionCodec.decode_tokenOf hne hisKey hsize) hat howns
    have hschema : Store.keySchema walk.source.store (r.withPageSize pageSize).table =
        .ok t.schema := by
      rw [← h.table.schema]
      exact (Request.fits_withPageSize h.table.fits pageSize).keySchema
    obtain ⟨s, startKey, hopen, hstore, hrequest, hcursor, hstarts⟩ :=
      exists_openWalk m hschema hlimit (hresumes.withPageSize pageSize)
    have hcoverage := h.coverage
    rw [List.append_assoc] at hcoverage
    exact ⟨_, some loc, rfl, hopen, fresh hstore hrequest hcursor
      ((Request.startsAt_withPageSize pageSize).1 hstarts) h.table h.arriving
      (hcoverage.restart fun _ => h.startsAt.sound)⟩

end Tracks

end CursorPaging
