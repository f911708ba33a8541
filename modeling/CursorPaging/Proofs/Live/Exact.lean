import CursorPaging.Proofs.Live.Tracking

/-!
# Walks over a changing table are exact

A walk loses nothing and repeats nothing, whatever is edited between its fetches, and however often
it is given up and opened again.

* `Session.Invariant`; `start_invariant`, `step_invariant`, `run_invariant`: it holds at the start
  and every event keeps it;
* `Session.Exact`: what it says about the results handed out; `mem_of_exhausted`;
* **`Session.run_exact`**: so after every run.
-/

namespace CursorPaging

namespace Session

variable {α : Type} {r : Request} {t : Table} {allowed : List Table.Edit} {codec : PositionCodec}
  {m : Record → Except PagingError α} {limit : Option Nat} {s s' : Session α}
  {walked buffered : List (Location × Record)} {start : Option Location}

/-- What every event keeps. -/
structure Invariant (r : Request) (t : Table) (allowed : List Table.Edit) (codec : PositionCodec)
    (m : Record → Except PagingError α) (s : Session α)
    (walked buffered : List (Location × Record)) (start : Option Location) : Prop where
  tracks : Tracks r t allowed codec m s.walk walked buffered start
  handed : s.handed = walked.filterMap fun e => (m e.2).toOption
  ended : s.walk.Ended

/-- What was handed out of a table that changed, made of some rows. -/
structure Exact (r : Request) (t : Table) (allowed : List Table.Edit) (codec : PositionCodec)
    (m : Record → Except PagingError α) (s : Session α) (walked : List (Location × Record)) :
    Prop where
  handed : s.handed = walked.filterMap fun e => (m e.2).toOption
  /-- No location comes twice, and none comes out of order. -/
  ordered : walked.Pairwise fun a b => r.Ahead a.1 b.1
  located : ∀ e ∈ walked, t.schema.Locates e.2.fields e.1
  /-- Each table that was read is what some of the edits made of the first one. -/
  read : ∀ p ∈ s.seen, ∃ edits, edits ⊆ allowed ∧ p.1 = t.editAll edits
  /-- Each row was on a page, and was stored and matched when that was read. -/
  matched : ∀ e ∈ walked, ∃ p ∈ s.seen, r.Matches p.1 e.1 e.2 ∧ e.2 ∈ p.2.items
  /-- Once nothing is left, no row is missing that was stored and matched all the time. -/
  complete : s.walk.phase = .exhausted → ∀ loc row, (∀ p ∈ s.seen, r.Matches p.1 loc row) →
    (loc, row) ∈ walked
  /-- So none is missing that no edit was for. -/
  untouched : s.walk.phase = .exhausted → ∀ loc row, r.Matches t loc row →
    (∀ e ∈ allowed, t.locate e.fields ≠ .ok loc) → (loc, row) ∈ walked
  /-- A walk can be given up whenever it has a token that is not too long. -/
  resumes : s.walk.position = .ok none ∨ ∃ token, s.walk.position = .ok (some token) ∧
    (Utf8.size token ≤ codec.maxTokenLength → ∀ pageSize limit, limit ≠ some 0 →
      (s.step r codec m (.restart pageSize limit)).isSome = true)

theorem start_invariant (codec : PositionCodec) (m : Record → Except PagingError α)
    (ht : t.WellFormed) (hfits : r.Fits t) (hlimit : limit ≠ some 0) :
    ∃ s₀, Session.start t r codec m limit = .ok s₀ ∧
      ∀ allowed, s₀.Invariant r t allowed codec m [] [] none := by
  have hschema : Store.keySchema (⟨t, [], []⟩ : LiveTable) r.table = .ok t.schema :=
    hfits.keySchema
  obtain ⟨source, startKey, hopen, hstore, hrequest, hcursor, hstarts⟩ :=
    exists_openWalk m hschema hlimit (.none : ResumesAt codec r t.schema none none)
  refine ⟨_, by rw [Session.start, hopen]; rfl, fun allowed => ⟨?_, rfl, ?_⟩⟩
  · have hsame : r.withPageSize r.pageSize = r := by cases r <;> rfl
    have htable : t.Live r t allowed := ⟨ht, hfits, rfl, [], List.nil_subset _, rfl⟩
    exact .fresh hstore (hrequest.trans hsame.symm) hcursor hstarts htable (by simp)
      (.empty r t allowed)
  · exact Traversal.ended_of_ne (by simp [Traversal.start])

theorem ended_onTable {walk : Traversal (WalkSource LiveTable) α} (h : walk.Ended)
    (f : LiveTable → LiveTable) : (walk.onTable f).Ended := by
  intro hphase
  obtain ⟨hbuffer, hsource⟩ := h hphase
  refine ⟨hbuffer, ?_⟩
  rw [WalkSource.hasMore_eq] at hsource ⊢
  rw [Traversal.onTable, WalkSource.cursor_put]
  exact hsource

/-- **Every event keeps it.** -/
theorem step_invariant (hfinite : ∀ e ∈ allowed, e.Finite t.schema)
    (h : s.Invariant r t allowed codec m walked buffered start) {event : Event}
    (hevent : event.edits ⊆ allowed) (hstep : s.step r codec m event = some s') :
    ∃ walked buffered start, s'.Invariant r t allowed codec m walked buffered start := by
  cases event with
  | edit change =>
    cases hstep
    have htable := h.tracks.table.editAll hfinite hevent
    have htracks := h.tracks.onTable (f := fun t => { t with table := t.table.edit change }) rfl
      htable h.tracks.arriving
    exact ⟨walked, buffered, start, htracks, h.handed, ended_onTable h.ended _⟩
  | ask fuel call arriving =>
    obtain ⟨⟨answer, walk⟩, hask, rfl⟩ := Option.map_eq_some_iff.1 hstep
    have harriving : ∀ edits ∈ arriving, edits ⊆ allowed := fun edits hedits e he =>
      hevent (List.mem_flatten.2 ⟨edits, hedits, he⟩)
    have hbefore :=
      h.tracks.onTable (f := fun t => { t with arriving }) rfl h.tracks.table harriving
    obtain ⟨taken, buffered, start, hwalk, hresults⟩ := hbefore.ask hfinite hask
    refine ⟨walked ++ taken, buffered, start, hwalk, ?_, ?_⟩
    · rw [h.handed, hresults, List.filterMap_append]
    · exact Traversal.ask_ended WalkSource.truthful (ended_onTable h.ended _) hask
  | restart pageSize limit =>
    rw [step] at hstep
    rcases hposition : s.walk.position with e | _ | token
    · simp only [hposition] at hstep
      cases hstep
    · simp only [hposition] at hstep
      cases hstep
    · simp only [hposition] at hstep
      rcases hopen : openWalk s.walk.source.store (r.withPageSize pageSize) codec m limit
        (some token) with e | walk
      · simp only [hopen] at hstep
        cases hstep
      · simp only [hopen] at hstep
        cases hstep
        obtain ⟨hsize, hlimit⟩ := accepted_of_openWalk hopen
        obtain ⟨v, start, hfresh, hv, htracks⟩ :=
          h.tracks.exists_restart hposition hsize hlimit pageSize
        rw [hopen] at hv
        cases hv
        exact ⟨walked, [], start, htracks, h.handed,
          Traversal.ended_of_ne (by rw [hfresh]; simp)⟩

/-- **Every run keeps it.** -/
theorem run_invariant (hfinite : ∀ e ∈ allowed, e.Finite t.schema) : ∀ {events : List Event}
    {s s' : Session α} {walked buffered : List (Location × Record)} {start : Option Location},
    s.Invariant r t allowed codec m walked buffered start →
      events.flatMap Event.edits ⊆ allowed → s.run r codec m events = some s' →
        ∃ walked buffered start, s'.Invariant r t allowed codec m walked buffered start
  | [], s, s', walked, buffered, start, h, _, hrun => by
    cases hrun
    exact ⟨walked, buffered, start, h⟩
  | event :: rest, s, s', walked, buffered, start, h, hevents, hrun => by
    rw [List.flatMap_cons, List.append_subset] at hevents
    obtain ⟨mid, hstep, hrest⟩ := Option.bind_eq_some_iff.1 hrun
    obtain ⟨walked, buffered, start, hmid⟩ := step_invariant hfinite h hevents.1 hstep
    exact run_invariant hfinite hmid hevents.2 hrest

theorem mem_of_exhausted (h : s.Invariant r t allowed codec m walked buffered start)
    (hphase : s.walk.phase = .exhausted) {loc : Location} {row : Record}
    (hall : ∀ p ∈ s.seen, r.Matches p.1 loc row) : (loc, row) ∈ walked := by
  have hcoverage := h.tracks.coverage
  obtain ⟨hbuffer, hsource⟩ := h.ended hphase
  rw [WalkSource.hasMore_eq, StartCursor.hasMore, h.tracks.startsAt.isSome_eq] at hsource
  simp only [Bool.or_eq_false_iff, Bool.not_eq_false', Option.isSome_eq_false_iff,
    Option.isNone_iff_eq_none] at hsource
  obtain ⟨hfetched, rfl⟩ := hsource
  obtain rfl : buffered = [] := List.map_eq_nil_iff.1 (h.tracks.buffer ▸ hbuffer)
  rw [List.append_nil] at hcoverage
  obtain ⟨e, he, rfl⟩ := hcoverage.complete loc hfetched fun p hp => ⟨row, hall p hp⟩
  obtain ⟨p, hp, hmatches, -⟩ := hcoverage.matched e he
  have hrow : e.2 = row := Option.some.inj (hmatches.stored.symm.trans (hall p hp).stored)
  exact hrow ▸ he

theorem exact_of_invariant (ht : t.WellFormed) (hfinite : ∀ e ∈ allowed, e.Finite t.schema)
    (h : s.Invariant r t allowed codec m walked buffered start) :
    s.Exact r t allowed codec m walked := by
  have hcoverage := h.tracks.coverage
  have hfound {e : Location × Record} (he : e ∈ walked) : e ∈ walked ++ buffered :=
    List.mem_append_left _ he
  refine ⟨h.handed, hcoverage.ordered.sublist (List.sublist_append_left _ _),
    fun e he => hcoverage.located e (hfound he), fun p hp => (hcoverage.live p hp).made,
    fun e he => hcoverage.matched e (hfound he), fun hphase loc row => mem_of_exhausted h hphase,
    fun hphase loc row hmatches hne => mem_of_exhausted h hphase fun p hp => ?_, ?_⟩
  · obtain ⟨edits, hedits, hmade⟩ := (hcoverage.live p hp).made
    have hkept : (t.editAll edits).rowAt loc = t.rowAt loc :=
      Table.rowAt_editAll_of_ne ht (fun e he => hfinite e (hedits he)) fun e he => hne e (hedits he)
    exact ⟨by rw [hmade, hkept, hmatches.stored], hmatches.covers, hmatches.passes⟩
  · rcases h.tracks.position_cases with hnone | ⟨_, _, _, key, -, hposition, -⟩
    · exact .inl hnone
    · refine .inr ⟨_, hposition, fun hsize pageSize limit hlimit => ?_⟩
      obtain ⟨v, _, -, hv, -⟩ := h.tracks.exists_restart hposition hsize hlimit pageSize
      rw [step, hposition]
      simp only [hv, Option.isSome_some]

/-- **Walks over a changing table are exact.** The results are made of rows in the strict order of
the walk, each stored and matched when its page was read, and once the last walk is exhausted no row
is missing that was there all the time. -/
theorem run_exact (h : t.Reached) (hfits : r.Fits t) (codec : PositionCodec)
    (m : Record → Except PagingError α) (hlimit : limit ≠ some 0) :
    ∃ s₀, Session.start t r codec m limit = .ok s₀ ∧ ∀ (events : List Event) (s : Session α),
      (∀ e ∈ events.flatMap Event.edits, e.Finite t.schema) → s₀.run r codec m events = some s →
        ∃ walked, s.Exact r t (events.flatMap Event.edits) codec m walked := by
  obtain ⟨s₀, hstart, hinvariant⟩ := start_invariant codec m h.wellFormed hfits hlimit
  refine ⟨s₀, hstart, fun events s hfinite hrun => ?_⟩
  obtain ⟨walked, buffered, start, hs⟩ :=
    run_invariant hfinite (hinvariant _) (List.Subset.refl _) hrun
  exact ⟨walked, exact_of_invariant h.wellFormed hfinite hs⟩

/-- The row `1` is stored again after it was handed out, and the row `2` is replaced while it is in
the buffer. -/
theorem run_exact_replaced_rows :
    let row (range c : String) : Record :=
      ⟨.ofList [("h", .text "a"), ("r", .number range), ("c", .text c)]⟩
    let edits : List Table.Edit := [.insert (row "1" "x"), .insert (row "2" "x"),
      .insert (row "3" "x")]
    let t := (Table.make "t" ⟨"h", some "r"⟩ 1 1).editAll edits
    let r := Request.query ⟨"t", .text "a", none, [], none, true⟩
    let events : List Event := [.ask 2 .next [], .edit (.delete ⟨(row "1" "x").fields⟩),
      .ask 2 .hasNext [[.insert (row "1" "y")]], .edit (.delete ⟨(row "2" "x").fields⟩),
      .restart (some 2) (some 5), .ask 2 .next [[.insert (row "2" "y")]], .ask 2 .next [],
      .ask 2 .hasNext []]
    ∃ s₀ s walked, Session.start t r .default .ok none = .ok s₀ ∧
      s₀.run r .default .ok events = some s ∧
      s.handed = [row "1" "x", row "2" "y", row "3" "x"] ∧ s.walk.phase = .exhausted ∧
      s.Exact r t (events.flatMap Event.edits) .default .ok walked := by
  intro row edits t r events
  have hreached : t.Reached := ⟨"t", ⟨"h", some "r"⟩, 1, 1, edits, by decide +kernel, rfl⟩
  have hfits : r.Fits t := ⟨rfl, fun hrange => nomatch hrange⟩
  have hlimit : (none : Option Nat) ≠ some 0 := by simp
  obtain ⟨s₀, hstart, hexact⟩ := run_exact hreached hfits .default Except.ok hlimit
  have hshown : ((Session.start t r .default .ok none).toOption.bind
      (run r .default .ok events)).map (fun s => (s.handed, s.walk.phase)) =
        some ([row "1" "x", row "2" "y", row "3" "x"], .exhausted) := by decide +kernel
  rw [hstart] at hshown
  obtain ⟨s, hrun, hs⟩ := Option.map_eq_some_iff.1 hshown
  obtain ⟨hhanded, hphase⟩ := Prod.mk.inj hs
  obtain ⟨walked, hwalked⟩ := hexact events s (by decide +kernel) hrun
  exact ⟨s₀, s, walked, hstart, hrun, hhanded, hphase, hwalked⟩

end Session

end CursorPaging
