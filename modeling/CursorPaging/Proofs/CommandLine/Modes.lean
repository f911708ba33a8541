import CursorPaging.Proofs.CommandLine.Tokens
import CursorPaging.Proofs.Table.Paged

/-!
# Modes

Queries and scans walk through the seed from the row that they are given the token of, and batches
of keys through all of it. Each mode prints the rows that its limit lets through.

* `Walks`: a kind of source that is a query or a scan; `QuerySource.walks`, `ScanSource.walks`;
* `Request.kind`, `positions_of_at`; **`exists_placed`**: what a run goes on with;
* `printed`, `pagesFor`: how many rows and pages; `Lists`: what a run prints that goes on after some
  rows of the seed; `GoesOn`: and where to go on;
* **`drain_walk`**, `drain_batch`: such runs over each kind of source;
* `theQuery`, `theScan`: what is walked;
* **`page_of_placed`**, **`page_of_start`**: every mode.
-/

namespace CursorPaging

-- powers are those of the core library
attribute [local instance (10000)] instPowNat

/-- The kind of source that a request is walked by. -/
def Request.kind : Request → SourceKind
  | .query _ => .rangeQuery
  | .scan _ => .scan

/-- A kind of source that is a query or a scan of a table. -/
structure Walks {σ : Type} [PageSource σ] (f : σ → WalkSource Table) : Prop
    extends Traversal.SourceMap f where
  law : Truthful σ
  kept : ∀ s : σ, KeysKept s
  setStart : ∀ (s : σ) (key : ResumeKey), PageSource.setStart (f s) key =
    ((PageSource.setStart s key).1, f (PageSource.setStart s key).2)
  hashKeyField : ∀ s : σ, PageSource.hashKeyField (f s) = PageSource.hashKeyField s

theorem QuerySource.walks : Walks (WalkSource.query (β := Table)) where
  kind _ := rfl
  hasMore _ := rfl
  fetchPage _ := rfl
  keySchema _ := rfl
  law := QuerySource.truthful
  kept := QuerySource.keysKept
  setStart _ _ := rfl
  hashKeyField _ := rfl

theorem ScanSource.walks : Walks (WalkSource.scan (β := Table)) where
  kind _ := rfl
  hasMore _ := rfl
  fetchPage _ := rfl
  keySchema _ := rfl
  law := ScanSource.truthful
  kept := ScanSource.keysKept
  setStart _ _ := rfl
  hashKeyField _ := rfl

theorem WalkSource.kind_eq (s : WalkSource Table) : PageSource.kind s = s.request.kind := by
  cases s <;> rfl

theorem WalkSource.hashKeyField_eq (s : WalkSource Table) :
    PageSource.hashKeyField s = .ok s.cursor.schema.hashKey := by
  cases s <;> rfl

namespace CommandLine

variable {σ : Type} [PageSource σ] {f : σ → WalkSource Table} {r : Request} {a : Arguments}
  {settings : PagingSettings} {s : σ} {start : Option Location} {codec : PositionCodec}
  {done : Nat}

theorem positions_of_at (hf : Walks f) {t : Table} (hat : (f s).At r t start)
    (hschema : t.schema = Demo.schema) (hshort : a.hashKey.isSome = true → r.kind = .rangeQuery) :
    Positions a s where
  schema := by rw [← hf.keySchema, WalkSource.keySchema_eq, hat.schema, hschema]
  kind := by
    rw [← hf.kind, WalkSource.kind_eq]
    cases (f s).request <;> simp [Request.kind]
  short h := by rw [← hf.kind, WalkSource.kind_eq, hat.request, hshort h]
  kept := hf.kept s

/-- The rows of the seed that come after some of them. -/
def rest (done rows : Nat) : List Nat := List.range' done (rows - done)

/-- **A run goes on with the rows** after the one that it is given the token of. -/
theorem exists_placed (hf : Walks f) (hr : Demo.Reads r)
    (hat : (f s).At r (Demo.seeded settings a.rowCount a.rowCount) none)
    (hmore : (f s).cursor.hasMore = true) (hlimit : a.limit ≠ some 0)
    (hplaced : Placed a codec done)
    (hshort : done ≠ 0 → a.hashKey.isSome = true → r.kind = .rangeQuery) :
    ∃ s' start, configure a (Pager.make s codec DemoRow.ofRecord) = .ok (limited a codec s') ∧
      (f s').At r (Demo.seeded settings a.rowCount a.rowCount) start ∧
      (f s').cursor.hasMore = true ∧
      r.readsAfter (Demo.seeded settings a.rowCount a.rowCount) start =
        (rest done a.rowCount).map fun i => (Demo.place i a.rowCount, Demo.row i a.rowCount) := by
  cases hplaced with
  | start position =>
    refine ⟨s, none, configure_start hlimit position codec s, hat, hmore, ?_⟩
    rw [Request.readsAfter, Demo.reads_seeded hr, rest, List.range_eq_range', Nat.sub_zero]
  | after i inside position hash size =>
    have hlocates := Demo.locates_key i a.rowCount
    have hschema : (f s).cursor.schema = Demo.schema := hat.schema
    have howns : r.Owns (Demo.place i a.rowCount) := Request.owns_of_covers (hr.covers i _)
    have hset := WalkSource.setStart_of_locates (s := f s) (hschema ▸ hlocates)
      (hat.request ▸ howns)
    rw [hf.setStart, Prod.mk.injEq] at hset
    obtain ⟨hok, hput⟩ := hset
    have hfield : PageSource.hashKeyField s = .ok Demo.schema.hashKey := by
      rw [← hf.hashKeyField, WalkSource.hashKeyField_eq, hschema]
    refine ⟨(PageSource.setStart s (Demo.key i a.rowCount)).2, some (Demo.place i a.rowCount),
      configure_after hlimit position hash size
        (positions_of_at hf hat rfl (hshort (Nat.succ_ne_zero i))) hfield (Prod.ext hok rfl),
      ?_, ?_, Demo.readsAfter_seeded hr inside⟩
    · rw [hput]
      refine ⟨by rw [WalkSource.store_put, hat.store], by rw [WalkSource.request_put, hat.request],
        by rw [WalkSource.cursor_put]; exact hat.schema, ?_⟩
      rw [WalkSource.cursor_put]
      exact .some hlocates howns
    · rw [hput, WalkSource.cursor_put, StartCursor.hasMore]
      exact Bool.or_true _

/-! ## What is printed -/

/-- How many rows a run prints that goes on after some rows of the seed. -/
def printed (a : Arguments) (done : Nat) : Nat :=
  min (a.limit.getD (a.rowCount - done)) (a.rowCount - done)

/-- How many pages a run fetches for the rows that it prints: batches of keys, or pages of a query
or a scan, of which there is at least one. -/
def pagesFor (a : Arguments) (settings : PagingSettings) (count : Nat) : Nat :=
  if a.pagingMode = .batch then count ⌈/⌉ max 1 settings.batchMax
  else max 1 (count ⌈/⌉ max 1 settings.pageSize)

theorem take_rest (n done rows : Nat) :
    (rest done rows).take n = List.range' done (min n (rows - done)) := by
  rw [rest]
  rcases Nat.le_total n (rows - done) with hle | hle
  · rw [List.take_range'_of_length_ge hle, Nat.min_eq_left hle]
  · rw [List.take_of_length_le (by rw [List.length_range']; exact hle), Nat.min_eq_right hle]

/-- What a run prints that goes on after some rows of the seed, with that many pages. -/
structure Lists (a : Arguments) (done pages : Nat) (report : Report) : Prop where
  rows : report.rows = (List.range' done (printed a done)).map (Demo.shown · a.rowCount)
  pages : report.pages = pages
  past : report.past = a.limit.map fun _ => decide (done + printed a done < a.rowCount)

theorem Lists.length_rows {pages : Nat} {report : Report} (h : Lists a done pages report) :
    report.rows.length = printed a done := by
  rw [h.rows, List.length_map, List.length_range']

theorem drain_lists (hlaw : Truthful σ) {pager : Pager σ DemoRow} {size : Nat}
    (hconfigure : configure a pager = .ok (limited a codec s)) (hlimit : a.limit ≠ some 0)
    (hsize : 1 ≤ size) (hpaged : Paged size s ((rest done a.rowCount).map (Demo.row · a.rowCount)))
    (hwords : a.rowCount < 2 ^ (64 : Nat)) :
    ∃ (report : Report) (v : Traversal σ DemoRow),
      drain (a.rowCount + 2) a pager = some report.outcome ∧
      Lists a done (max (PageSource.hasMore s).toNat (printed a done ⌈/⌉ size)) report ∧
      report.position = tokenFor a v ∧ Finished s codec a.limit
        ((List.range' done (printed a done)).map (Demo.row · a.rowCount)) v := by
  have hrows : ((rest done a.rowCount).map (Demo.row · a.rowCount)).map DemoRow.ofRecord =
      ((rest done a.rowCount).map (Demo.shown · a.rowCount)).map .ok := by
    rw [List.map_map, List.map_map]
    refine List.map_congr_left fun i hi => ?_
    rw [rest, List.mem_range'_1] at hi
    exact Demo.ofRecord_row (by omega)
  have hlength : ((rest done a.rowCount).map (Demo.shown · a.rowCount)).length =
      a.rowCount - done := by rw [List.length_map, rest, List.length_range']
  obtain ⟨v, hdrain, hfinished⟩ :=
    drain_eq_report hlaw hconfigure rfl hlimit hsize hpaged hrows
      (show _ < a.rowCount + 2 by omega)
  have hpast : decide (a.limit.getD (a.rowCount - done) < a.rowCount - done) =
      decide (done + printed a done < a.rowCount) := by
    rw [decide_eq_decide, printed]
    omega
  rw [hlength, hpast, ← List.map_take, take_rest] at hdrain
  rw [hlength, ← List.map_take, take_rest] at hfinished
  refine ⟨_, v, hdrain, ⟨rfl, ?_, rfl⟩, rfl, hfinished⟩
  rw [List.length_map, List.length_range']
  rfl

/-- Where a run goes on: nowhere if it printed fewer rows than its limit, and otherwise after the
last row that it printed. -/
structure GoesOn (a : Arguments) (done : Nat) (report : Report) : Prop where
  ends : (∀ n, a.limit = some n → report.rows.length < n) → report.position = .ok none
  token : (¬ ∀ n, a.limit = some n → report.rows.length < n) →
    ∃ i, i + 1 = done + report.rows.length ∧ i < a.rowCount ∧
      report.position = .ok (some (Demo.token a.hashKey.isSome i a.rowCount))

theorem goesOn_of_finished {pages : Nat} {report : Report} {v : Traversal σ DemoRow}
    (h : Positions a s) (hlimit : a.limit ≠ some 0) (hlists : Lists a done pages report)
    (hposition : report.position = tokenFor a v)
    (hfinished : Finished s codec a.limit
      ((List.range' done (printed a done)).map (Demo.row · a.rowCount)) v) :
    GoesOn a done report := by
  have hlength : ((List.range' done (printed a done)).map (Demo.row · a.rowCount)).length =
      printed a done := by rw [List.length_map, List.length_range']
  refine ⟨fun hopen => ?_, fun hreached => ?_⟩
  · rw [hlists.length_rows] at hopen
    exact hposition.trans (tokenFor_exhausted h hfinished (by rwa [hlength]))
  · rw [hlists.length_rows] at hreached ⊢
    have hsome : 0 < printed a done ∧ done + printed a done ≤ a.rowCount := by
      rw [printed]
      cases hcase : a.limit with
      | none => simp [hcase] at hreached
      | some n =>
        have hpos : n ≠ 0 := fun h => hlimit (hcase.trans (congrArg some h))
        simp only [printed, hcase, Option.some.injEq, forall_eq', Option.getD_some] at hreached ⊢
        omega
    refine ⟨done + printed a done - 1, by omega, by omega, ?_⟩
    rw [hposition]
    refine tokenFor_last h hfinished (by rwa [hlength]) ?_
    rw [List.getLast?_map, List.getLast?_range', if_neg hsome.1.ne']
    rfl

theorem drain_walk (hf : Walks f) (hr : Demo.Reads r) (hpageSize : r.pageSize = none)
    (hat : (f s).At r (Demo.seeded settings a.rowCount a.rowCount) none)
    (hmore : (f s).cursor.hasMore = true) (hlimit : a.limit ≠ some 0)
    (hplaced : Placed a codec done)
    (hshort : done ≠ 0 → a.hashKey.isSome = true → r.kind = .rangeQuery)
    (hwords : a.rowCount < 2 ^ (64 : Nat)) :
    ∃ report, drain (a.rowCount + 2) a (Pager.make s codec DemoRow.ofRecord) =
        some report.outcome ∧
      Lists a done (max 1 (printed a done ⌈/⌉ max 1 settings.pageSize)) report ∧
      ((a.hashKey.isSome = true → r.kind = .rangeQuery) → GoesOn a done report) := by
  obtain ⟨s', start, hconfigure, hat', hmore', hreads⟩ :=
    exists_placed hf hr hat hmore hlimit hplaced hshort
  have hpaged := WalkSource.paged (Demo.wellFormed_seeded (Nat.le_refl _)) hr.fits hr.filters hat'
    hmore'
  have hsize : (Demo.seeded settings a.rowCount a.rowCount).effectivePageSize r.pageSize =
      max 1 settings.pageSize := by
    rw [hpageSize]
    exact Nat.max_eq_right (Nat.le_max_left 1 _)
  rw [hreads, List.map_map, hsize] at hpaged
  have hopen : PageSource.hasMore s' = true := by
    rw [← hf.hasMore, WalkSource.hasMore_eq, hmore']
  obtain ⟨report, v, hdrain, hlists, hposition, hfinished⟩ := drain_lists hf.law hconfigure hlimit
    (Nat.le_max_left 1 _) (hpaged.of_map hf.toSourceMap rfl) hwords
  rw [hopen] at hlists
  exact ⟨report, hdrain, hlists, fun hkind =>
    goesOn_of_finished (positions_of_at hf hat' rfl hkind) hlimit hlists hposition hfinished⟩

theorem drain_batch (hlimit : a.limit ≠ some 0) (hposition : a.position = none)
    (hwords : a.rowCount < 2 ^ (64 : Nat)) (codec : PositionCodec) :
    ∃ report, drain (a.rowCount + 2) a (Pager.make (BatchSource.make
        (Demo.seeded settings a.rowCount a.rowCount) ⟨Demo.tableName,
          (List.range a.rowCount).map (Demo.key · a.rowCount)⟩) codec DemoRow.ofRecord) =
        some report.outcome ∧
      Lists a 0 (printed a 0 ⌈/⌉ max 1 settings.batchMax) report ∧
      report.position = .ok none := by
  have hsize : 1 ≤ max 1 settings.batchMax := Nat.le_max_left 1 _
  have hpaged : Paged (max 1 settings.batchMax) _
      ((List.range a.rowCount).map (Demo.row · a.rowCount)) :=
    Table.paged_keys (t := Demo.seeded settings a.rowCount a.rowCount) hsize
      fun i hi => Demo.get_key (List.mem_range.1 hi)
  have hrest : (List.range a.rowCount).map (Demo.row · a.rowCount) =
      (rest 0 a.rowCount).map (Demo.row · a.rowCount) := congrArg _ List.range_eq_range'
  rw [hrest] at hpaged
  obtain ⟨report, v, hdrain, hlists, htoken, hfinished⟩ := drain_lists BatchSource.truthful
    (configure_start hlimit hposition codec _) hlimit hsize hpaged hwords
  have hkind : PageSource.kind v.source = .batchGet :=
    (BatchSource.keysKept _ _ hfinished.leads).1
  have hnone : tokenFor a v = .ok none := by rw [tokenFor, if_pos hkind]
  rw [Nat.max_eq_right] at hlists
  · exact ⟨report, hdrain, hlists, htoken.trans hnone⟩
  · -- without rows no call is made
    rcases Nat.eq_zero_or_pos a.rowCount with hzero | hpos
    · rw [hzero]
      exact Nat.zero_le _
    · refine (Bool.toNat_le _).trans (one_le_ceilDiv ?_ hsize)
      rw [printed]
      cases hcase : a.limit with
      | none => simpa using hpos
      | some n =>
        have hn : n ≠ 0 := fun h => hlimit (hcase.trans (congrArg some h))
        simp only [Option.getD_some]
        omega

/-! ## Every mode -/

/-- The query that is walked. -/
def theQuery : QueryRequest := ⟨Demo.tableName, .text Demo.tenant, none, [], none, true⟩

/-- The scan that is walked. -/
def theScan : ScanRequest := ⟨Demo.tableName, [], none⟩

theorem reads_theQuery : Demo.Reads (.query theQuery) := ⟨rfl, fun _ _ => rfl, rfl, rfl⟩

theorem reads_theScan : Demo.Reads (.scan theScan) := ⟨rfl, fun _ _ => rfl, rfl, rfl⟩

theorem make_theQuery (settings : PagingSettings) (count rows : Nat) :
    QuerySource.make (Demo.seeded settings count rows) theQuery =
      .ok ⟨Demo.seeded settings count rows, theQuery, .start Demo.schema⟩ := by
  have hschema : Store.keySchema (Demo.seeded settings count rows) theQuery.table = .ok _ :=
    reads_theQuery.fits.keySchema
  rw [QuerySource.make, hschema]
  rfl

theorem make_theScan (settings : PagingSettings) (count rows : Nat) :
    ScanSource.make (Demo.seeded settings count rows) theScan =
      .ok ⟨Demo.seeded settings count rows, theScan, .start Demo.schema⟩ := by
  have hschema : Store.keySchema (Demo.seeded settings count rows) theScan.table = .ok _ :=
    reads_theScan.fits.keySchema
  rw [ScanSource.make, hschema]
  rfl

theorem at_start {w : WalkSource Table} {t : Table} (hstore : w.store = t)
    (hrequest : w.request = r)
    (hcursor : w.cursor = .start t.schema) : w.At r t none ∧ w.cursor.hasMore = true := by
  refine ⟨⟨hstore, hrequest, by rw [hcursor]; rfl, ?_⟩, by rw [hcursor]; rfl⟩
  rw [hcursor]
  exact .none

variable {all : Settings}

/-- **A query or scan** prints the rest of the seed, and where to go on. -/
theorem page_of_placed (hmode : a.pagingMode ≠ .batch) (hlimit : a.limit ≠ some 0)
    (hplaced : Placed a all.paging.codec done)
    (hshort : done ≠ 0 → a.hashKey.isSome = true → a.pagingMode = .query)
    (hwords : a.rowCount < 2 ^ (64 : Nat)) :
    ∃ report, page a all (Demo.seeded all.paging a.rowCount a.rowCount) = some report.outcome ∧
      Lists a done (pagesFor a all.paging (printed a done)) report ∧
      ((a.hashKey.isSome = true → a.pagingMode = .query) → GoesOn a done report) := by
  rw [pagesFor, if_neg hmode]
  cases hcase : a.pagingMode with
  | batch => exact absurd hcase hmode
  | query =>
    have hmake := make_theQuery all.paging a.rowCount a.rowCount
    obtain ⟨hat, hmore⟩ := at_start rfl rfl rfl (w := .query
      ⟨Demo.seeded all.paging a.rowCount a.rowCount, theQuery, .start Demo.schema⟩)
    obtain ⟨report, hdrain, hlists, hgoes⟩ := drain_walk QuerySource.walks reads_theQuery rfl hat
      hmore hlimit hplaced (fun _ _ => rfl) hwords
    refine ⟨report, ?_, hlists, fun _ => hgoes fun _ => rfl⟩
    rw [theQuery] at hmake
    simp only [page, hcase, hmake, drainNew]
    exact hdrain
  | scan =>
    have hmake := make_theScan all.paging a.rowCount a.rowCount
    rw [hcase] at hshort
    obtain ⟨hat, hmore⟩ := at_start rfl rfl rfl (w := .scan
      ⟨Demo.seeded all.paging a.rowCount a.rowCount, theScan, .start Demo.schema⟩)
    obtain ⟨report, hdrain, hlists, hgoes⟩ := drain_walk ScanSource.walks reads_theScan rfl hat
      hmore hlimit hplaced (fun hne hhash => absurd (hshort hne hhash) (by decide)) hwords
    refine ⟨report, ?_, hlists, fun hquery =>
      hgoes fun hhash => absurd (hquery hhash) (by decide)⟩
    rw [theScan] at hmake
    simp only [page, hcase, hmake, drainNew]
    exact hdrain

/-- **Every mode prints the seed** if it is given no token. -/
theorem page_of_start (hlimit : a.limit ≠ some 0) (hposition : a.position = none)
    (hwords : a.rowCount < 2 ^ (64 : Nat)) :
    ∃ report, page a all (Demo.seeded all.paging a.rowCount a.rowCount) = some report.outcome ∧
      Lists a 0 (pagesFor a all.paging (printed a 0)) report ∧
      (a.pagingMode = .batch → report.position = .ok none) := by
  by_cases hmode : a.pagingMode = .batch
  · obtain ⟨report, hdrain, hlists, hnone⟩ := drain_batch hlimit hposition hwords all.paging.codec
    refine ⟨report, ?_, by rwa [pagesFor, if_pos hmode], fun _ => hnone⟩
    simp only [page, hmode, drainNew]
    exact hdrain
  · obtain ⟨report, hpage, hlists, -⟩ := page_of_placed hmode hlimit (.start hposition)
      (fun hne => absurd rfl hne) hwords
    exact ⟨report, hpage, hlists, fun hbatch => absurd hbatch hmode⟩

end CommandLine

end CursorPaging
