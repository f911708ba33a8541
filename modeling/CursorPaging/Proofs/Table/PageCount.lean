import CursorPaging.Pager
import CursorPaging.Proofs.Source.Continuation
import CursorPaging.Proofs.Table.Answer
import CursorPaging.Proofs.Table.Batches

/-!
# How many pages a walk fetches

A walk over a table reads every page but the last in full, so the number of its pages is set by the
number of the rows that it reads.

* `WalkSource.logged`: a source over a log; `WalkSource.make_cases`, `WalkSource.configured`: a
  source before its first fetch;
* `Request.Pages`: the answers to a request, each going on after the last key of the one before;
  **`Request.exists_pages`**: a table gives them;
* `pageCount`, `Pages.length_eq`, `Pages.evaluated`, `Pages.items`: what these answers are;
* `Pages.serves`, `Pages.logged`: a source gives them page by page;
* **`page_count`**.
-/

namespace CursorPaging

theorem Table.keySchema_eq_ok {t : Table} {name : String} {schema : KeySchema}
    (h : t.keySchema name = .ok schema) : name = t.name ∧ t.schema = schema := by
  rw [keySchema, checkName] at h
  split_ifs at h with hname
  · exact ⟨hname, Except.ok.inj h⟩
  · cases h

/-! ## Sources before their first fetch -/

namespace WalkSource

variable {β : Type}

/-- The same source over a log of its store. -/
def logged : WalkSource β → WalkSource (PageLog β)
  | .query s => .query s.logged
  | .scan s => .scan s.logged

@[simp] theorem store_logged (s : WalkSource β) : s.logged.store = .fresh s.store := by
  cases s <;> rfl

@[simp] theorem request_logged (s : WalkSource β) : s.logged.request = s.request := by
  cases s <;> rfl

@[simp] theorem cursor_logged (s : WalkSource β) : s.logged.cursor = s.cursor := by
  cases s <;> rfl

variable [WalkStore β] {r : Request} {source s u : WalkSource β}

theorem fetchPage_of_logged {s : WalkSource (PageLog β)} {output : PageOutput} {store : β}
    (h : s.request.page s.store.inner s.cursor.startKey = (.ok output, store)) :
    PageSource.fetchPage s = (.ok (StartCursor.page output),
      s.put ⟨store, s.store.log ++ [((s.request, s.cursor.startKey), .ok output)]⟩
        (s.cursor.advance output)) := by
  have hadd : s.request.page s.store s.cursor.startKey = s.store.add (s.request, s.cursor.startKey)
      (s.request.page s.store.inner s.cursor.startKey) := by
    cases s.request <;> rfl
  rw [h] at hadd
  exact fetchPage_of_page hadd

theorem make_query {store : β} {q : QueryRequest} {schema : KeySchema}
    (h : Store.keySchema store q.table = .ok schema) :
    make store (.query q) = .ok (.query ⟨store, q, .start schema⟩) := by
  rw [make, QuerySource.make, h]
  rfl

theorem make_cases {store : β} (h : make store r = .ok source) :
    ∃ schema, Store.keySchema store r.table = .ok schema ∧ source.store = store ∧
      source.request = r ∧ source.cursor = .start schema := by
  cases r with
  | query q =>
    rcases hs : QuerySource.make store q with e | s <;> rw [make, hs] at h
    · cases h
    · obtain ⟨schema, hschema, rfl⟩ := QuerySource.make_cases hs
      cases h
      exact ⟨schema, hschema, rfl, rfl, rfl⟩
  | scan q =>
    rcases hs : ScanSource.make store q with e | s <;> rw [make, hs] at h
    · cases h
    · obtain ⟨schema, hschema, rfl⟩ := ScanSource.make_cases hs
      cases h
      exact ⟨schema, hschema, rfl, rfl, rfl⟩

theorem setStart_of_ok {key : ResumeKey} (h : PageSource.setStart s key = (.ok (), u)) :
    u = s.put s.store { s.cursor with startKey := some key } ∧
      ∀ loc, s.cursor.schema.Names key.fields loc → s.request.Owns loc := by
  cases s with
  | query s =>
    obtain ⟨hok, rfl⟩ := Prod.mk.inj h
    have hset : s.setStart key = (.ok (), (s.setStart key).2) := Prod.ext hok rfl
    refine ⟨congrArg query (QuerySource.setStart_of_ok hset), fun loc hnames => ?_⟩
    by_contra hother
    cases (QuerySource.setStart_other hnames.hash hother).symm.trans hset
  | scan s =>
    obtain ⟨hok, rfl⟩ := Prod.mk.inj h
    exact ⟨congrArg scan (ScanSource.setStart_of_ok (Prod.ext hok rfl)), fun _ _ => trivial⟩

theorem configured {schema : KeySchema} {start : Option ResumeKey}
    (h : Configured source start s) (hsource : source.cursor = .start schema) :
    (s.store, s.request) = (source.store, source.request) ∧ s.cursor = ⟨schema, start, false⟩ ∧
      ∀ key loc, start = some key → schema.Names key.fields loc → source.request.Owns loc := by
  have hset (s u : WalkSource β) (key : ResumeKey)
      (h : PageSource.setStart s key = (.ok (), u)) :
      (u.store, u.request) = (s.store, s.request) ∧
        u.cursor = { s.cursor with startKey := some key } := by
    rw [(setStart_of_ok h).1, store_put, request_put, cursor_put]
    exact ⟨rfl, rfl⟩
  obtain ⟨hown, hcursor⟩ := h.begins hset hsource
  refine ⟨hown, hcursor, ?_⟩
  rintro key loc rfl hnames
  cases h with
  | set before accepted =>
    obtain ⟨hkept, hschema⟩ := before.begins hset hsource
    have howns := (setStart_of_ok accepted).2 loc
    rw [hschema, (Prod.mk.inj hkept).2] at howns
    exact howns hnames

end WalkSource

/-! ## Answers one after the other -/

namespace Request

variable {r : Request} {t : Table} {size : Nat} {start : Option ResumeKey}
  {rows : List (Location × Record)} {outputs : List PageOutput}

/-- The answers to a request from a start key on, each going on after the last key of the one
before, as pages of some rows. -/
inductive Pages (r : Request) (t : Table) (size : Nat) :
    Option ResumeKey → List (Location × Record) → List PageOutput → Prop
  | last {start : Option ResumeKey} {rows : List (Location × Record)} {output : PageOutput}
      (page : r.page t start = (.ok output, t)) (pageOf : PageOf t size r.filters rows output)
      (lastKey : output.lastKey = none) : Pages r t size start rows [output]
  | more {start : Option ResumeKey} {rows : List (Location × Record)} {output : PageOutput}
      {key : ResumeKey} {later : List PageOutput} (page : r.page t start = (.ok output, t))
      (pageOf : PageOf t size r.filters rows output) (lastKey : output.lastKey = some key)
      (rest : Pages r t size (some key) (rows.drop size) later) :
      Pages r t size start rows (output :: later)

/-- **A table answers a request to its end**, page by page. -/
theorem exists_pages (h : t.WellFormed) (hfits : r.Fits t) {output : PageOutput}
    (hrows : rows <:+ r.reads t) (hpage : r.page t start = (.ok output, t))
    (houtput : PageOf t (t.effectivePageSize r.pageSize) r.filters rows output) :
    ∃ outputs, Pages r t (t.effectivePageSize r.pageSize) start rows outputs := by
  -- on the number of rows that are left
  generalize hlength : rows.length = length
  induction length using Nat.strongRecOn generalizing start rows output with
  | ind length ih =>
    cases hkey : output.lastKey with
    | none => exact ⟨_, .last hpage houtput hkey⟩
    | some key =>
      have hsize : 1 ≤ t.effectivePageSize r.pageSize := Nat.le_max_left _ _
      have hmore := houtput.lastKey.1 (by rw [hkey]; rfl)
      have hshort : (rows.drop (t.effectivePageSize r.pageSize)).length < length := by
        rw [List.length_take] at hmore
        rw [List.length_drop]
        omega
      obtain ⟨next, hnext, hnextOf⟩ := page_again h hfits hrows houtput hkey
      obtain ⟨later, hlater⟩ :=
        ih _ hshort ((List.drop_suffix _ _).trans hrows) hnext hnextOf rfl
      exact ⟨_, .more hpage houtput hkey hlater⟩

/-! ## What the answers are -/

/-- How many pages some rows take, and one if there are none. -/
def pageCount (size count : Nat) : Nat := max 1 (count ⌈/⌉ size)

theorem pageCount_of_le {count : Nat} (hsize : 1 ≤ size) (h : count ≤ size) :
    pageCount size count = 1 := by
  have hone : count ⌈/⌉ size ≤ 1 := (ceilDiv_le_iff_le_mul hsize).2 (by rwa [Nat.mul_one])
  exact Nat.max_eq_left hone

theorem pageCount_of_lt {count : Nat} (hsize : 1 ≤ size) (h : size < count) :
    pageCount size count = pageCount size (count - size) + 1 := by
  have hsplit : count + size - 1 = count - size + size - 1 + size := by omega
  have hpos : 1 ≤ (count - size + size - 1) / size := by
    rw [Nat.le_div_iff_mul_le hsize]
    omega
  rw [pageCount, pageCount, Nat.ceilDiv_eq_add_pred_div, Nat.ceilDiv_eq_add_pred_div, hsplit,
    Nat.add_div_right _ hsize, Nat.max_eq_right hpos, Nat.max_eq_right (Nat.le_add_left 1 _)]

namespace Pages

theorem ne_nil (h : Pages r t size start rows outputs) : outputs ≠ [] := by
  cases h <;> exact List.cons_ne_nil _ _

theorem length_eq (hsize : 1 ≤ size) (h : Pages r t size start rows outputs) :
    outputs.length = pageCount size rows.length := by
  induction h with
  | @last start rows output page pageOf lastKey =>
    have hall : ¬ (rows.take size).length < rows.length := by
      rw [← pageOf.lastKey, lastKey]
      exact Bool.false_ne_true
    rw [List.length_take] at hall
    rw [pageCount_of_le hsize (by omega), List.length_singleton]
  | @more start rows output key later page pageOf lastKey rest ih =>
    have hmore := pageOf.lastKey.1 (by rw [lastKey]; rfl)
    rw [List.length_take] at hmore
    rw [pageCount_of_lt hsize (by omega), List.length_cons, ih, List.length_drop]

theorem evaluated (h : Pages r t size start rows outputs) :
    ∀ output ∈ outputs.dropLast, output.evaluated = size := by
  induction h with
  | last => simp
  | @more start rows output key later page pageOf lastKey rest ih =>
    have hmore := pageOf.lastKey.1 (by rw [lastKey]; rfl)
    rw [List.dropLast_cons_of_ne_nil rest.ne_nil]
    refine List.forall_mem_cons.2 ⟨?_, ih⟩
    rw [List.length_take] at hmore
    rw [pageOf.evaluated, List.length_take]
    omega

theorem items (h : Pages r t size start rows outputs) :
    outputs.flatMap (·.items) = r.select rows := by
  induction h with
  | @last start rows output page pageOf lastKey =>
    have hall : rows.take size = rows := by
      refine (List.take_sublist _ _).eq_of_length_le (Nat.not_lt.1 ?_)
      rw [← pageOf.lastKey, lastKey]
      exact Bool.false_ne_true
    rw [List.flatMap_singleton, pageOf.items, hall]
    rfl
  | @more start rows output key later page pageOf lastKey rest ih =>
    rw [List.flatMap_cons, ih, pageOf.items]
    exact (select_append r _ _).symm.trans (by rw [List.take_append_drop])

/-! ## Sources that give them -/

theorem serves (h : Pages r t size start rows outputs) : ∀ {s : WalkSource Table}, s.store = t →
    s.request = r → s.cursor.startKey = start → s.cursor.hasMore = true →
      Serves s (outputs.map StartCursor.page) none (afterFetches outputs.length s) := by
  induction h with
  | @last start rows output page pageOf lastKey =>
    rintro s rfl rfl rfl hmore
    have hfetch := WalkSource.fetchPage_of_page page
    have hend : PageSource.hasMore (s.put s.store (s.cursor.advance output)) = false := by
      rw [WalkSource.hasMore_eq, WalkSource.cursor_put, StartCursor.hasMore, StartCursor.advance,
        lastKey]
      rfl
    rw [List.length_singleton, afterFetches_of_fetch hfetch]
    exact .page ((WalkSource.hasMore_eq s).trans hmore) hfetch
      (WalkSource.truthful _ _ _ hfetch) (.dry hend)
  | @more start rows output key later page pageOf lastKey rest ih =>
    rintro s rfl rfl rfl hmore
    have hfetch := WalkSource.fetchPage_of_page page
    rw [List.length_cons, afterFetches_of_fetch hfetch]
    refine .page ((WalkSource.hasMore_eq s).trans hmore) hfetch (WalkSource.truthful _ _ _ hfetch)
      (ih (by rw [WalkSource.store_put]) (by rw [WalkSource.request_put]) ?_ ?_)
    · rw [WalkSource.cursor_put]
      exact lastKey
    · rw [WalkSource.cursor_put, StartCursor.hasMore, StartCursor.advance, lastKey]
      rfl

theorem logged (h : Pages r t size start rows outputs) : ∀ {s : WalkSource (PageLog Table)},
    s.store.inner = t → s.request = r → s.cursor.startKey = start →
      (afterFetches outputs.length s).store.log.map (·.2) =
        s.store.log.map (·.2) ++ outputs.map .ok := by
  induction h with
  | @last start rows output page pageOf lastKey =>
    rintro s rfl rfl rfl
    rw [List.length_singleton, afterFetches_of_fetch (WalkSource.fetchPage_of_logged page),
      afterFetches_zero, WalkSource.store_put, List.map_append]
    rfl
  | @more start rows output key later page pageOf lastKey rest ih =>
    rintro s rfl rfl rfl
    rw [List.length_cons, afterFetches_of_fetch (WalkSource.fetchPage_of_logged page),
      ih (by rw [WalkSource.store_put]) (by rw [WalkSource.request_put])
        (by rw [WalkSource.cursor_put]; exact lastKey),
      WalkSource.store_put, List.map_append, List.append_assoc]
    rfl

end Pages

end Request

/-! ## Every walk -/

namespace Traversal

variable {α : Type} {r : Request} {t : Table} {source s : WalkSource Table}
  {start : Option ResumeKey}

/-- **Every walk over a table ends**, after as many pages as the rows take that it reads. It reads
an end of the rows of the request, and just those after the start key if its numbers are finite. -/
theorem page_count (h : t.Reached) (hmake : WalkSource.make t r = .ok source)
    (hrange : r.hasRange = true → t.schema.rangeKey.isSome = true)
    (hs : Configured source start s)
    (hstart : ∀ key, start = some key → ∃ loc, t.schema.Names key.fields loc)
    (codec : PositionCodec) (m : Record → Except PagingError α) :
    let size := t.effectivePageSize r.pageSize
    ∃ (rows : List (Location × Record)) (outputs : List PageOutput), rows <:+ r.reads t ∧
      (Request.FiniteStart t.schema start → r.After t start rows) ∧
      outputs.length = max 1 (rows.length ⌈/⌉ size) ∧
      (∀ output ∈ outputs.dropLast, output.evaluated = size) ∧
      ∀ fuel max, outputs.length ≤ fuel → (r.select rows).length < max →
        ∃ u, (Pager.make s codec m).iterate.1.collect fuel max =
            some ((r.select rows).map m, u) ∧
          u.phase = .exhausted ∧ u.pages = outputs.length ∧ u.source = afterFetches u.pages s ∧
          (afterFetches u.pages s.logged).store.log.map (·.2) = outputs.map .ok := by
  intro size
  obtain ⟨schema, hschema, hstore, hrequest, hcursor⟩ := WalkSource.make_cases hmake
  obtain ⟨hname, rfl⟩ := Table.keySchema_eq_ok hschema
  obtain ⟨hkept, hcursor', howns⟩ := WalkSource.configured hs hcursor
  obtain ⟨hstore', hrequest'⟩ := Prod.mk.inj hkept
  have hfits : r.Fits t := ⟨hname, hrange⟩
  have hstarts : r.Starts t.schema start := fun key hkey => by
    obtain ⟨loc, hnames⟩ := hstart key hkey
    exact ⟨loc, hnames, hrequest ▸ howns key loc hkey hnames⟩
  obtain ⟨rows, output, hpage, hsuffix, hafter, hpageOf, -⟩ :=
    Request.page_answers h.wellFormed hfits hstarts
  obtain ⟨outputs, hpages⟩ := Request.exists_pages h.wellFormed hfits hsuffix hpage hpageOf
  refine ⟨rows, outputs, hsuffix, hafter, hpages.length_eq (Nat.le_max_left _ _), hpages.evaluated,
    fun fuel max hfuel hmax => ?_⟩
  have hserves := hpages.serves (s := s) (hstore'.trans hstore) (hrequest'.trans hrequest)
    (by rw [hcursor']) (by rw [hcursor']; rfl)
  have hrecords : (outputs.map StartCursor.page).flatMap (·.records) = r.select rows := by
    rw [List.flatMap_map]
    exact hpages.items
  obtain ⟨u, hcollect, hstopped, hphase⟩ := collect_of_serves hserves
    (show _ ≤ fuel by rw [List.length_map]; exact hfuel)
    (show _ < max by rw [hrecords]; exact hmax) codec m
  rw [hrecords, Option.toList_none, List.map_nil, List.append_nil] at hcollect
  have hcount : u.pages = outputs.length := hstopped.pages.trans (List.length_map _)
  refine ⟨u, hcollect, hphase, hcount, hcount ▸ hstopped.source, ?_⟩
  rw [hcount, hpages.logged (by rw [WalkSource.store_logged]; exact hstore'.trans hstore)
    (by rw [WalkSource.request_logged, hrequest', hrequest])
    (by rw [WalkSource.cursor_logged, hcursor']), WalkSource.store_logged]
  rfl

/-- A descending walk after a key between two rows reads two whole pages and hands out nothing. -/
theorem page_count_descending :
    let row (range : String) : Record := ⟨.ofList [("h", .text "a"), ("r", .number range)]⟩
    let t := (Table.make "t" ⟨"h", some "r"⟩ 25 1).editAll
      (["3", "1", "5", "2", "4"].map fun range => .insert (row range))
    let q : QueryRequest := ⟨"t", .text "a", none, [.present "x"], some 2, false⟩
    let start : ResumeKey := ⟨(row "4.5").fields⟩
    t.Reached ∧ ∃ (source s : WalkSource Table) (outputs : List PageOutput)
      (u : Traversal _ Record),
      WalkSource.make t (.query q) = .ok source ∧ Configured source (some start) s ∧
      (Pager.make s .default .ok).iterate.1.collect 5 6 = some ([], u) ∧
      u.phase = .exhausted ∧ u.pages = 2 ∧
      (afterFetches 2 s.logged).store.log.map (·.2) = outputs.map .ok ∧ outputs.length = 2 ∧
      ∀ output ∈ outputs.dropLast, output.evaluated = 2 := by
  intro row t q start
  have hreached : t.Reached := ⟨"t", ⟨"h", some "r"⟩, 25, 1, _, by decide +kernel, rfl⟩
  have hkey : t.keySchema "t" = .ok ⟨"h", some "r"⟩ := by decide +kernel
  let source : WalkSource Table := .query ⟨t, q, .start ⟨"h", some "r"⟩⟩
  let s : WalkSource Table := .query ⟨t, q, ⟨⟨"h", some "r"⟩, some start, false⟩⟩
  have hmake : WalkSource.make t (.query q) = .ok source := WalkSource.make_query hkey
  have hs : Configured source (some start) s := .set .fresh rfl
  have hnames : t.schema.Names start.fields (.text "a", .number "4.5") :=
    Table.locate_eq_ok_iff.1 (by decide +kernel)
  obtain ⟨rows, outputs, hsuffix, -, hcount, hevaluated, hall⟩ := page_count hreached hmake
    (fun hrange => by cases hrange) hs (fun key hkey => Option.some.inj hkey ▸ ⟨_, hnames⟩) .default
    (.ok : Record → Except PagingError Record)
  have hfive : rows.length ≤ 5 := by
    have hreads : (Request.reads (.query q) t).length = 5 := by decide +kernel
    exact hreads ▸ hsuffix.length_le
  have hfuel : outputs.length ≤ 5 := by
    rw [hcount, Nat.max_le, ceilDiv_le_iff_le_mul (by decide)]
    exact ⟨by decide, Nat.le_trans hfive (by decide)⟩
  have hmax : (Request.select (.query q) rows).length < 6 := by
    have hpass := List.length_filter_le (passesAll [.present "x"]) (rows.map (·.2))
    rw [List.length_map] at hpass
    exact Nat.lt_succ_of_le (Nat.le_trans hpass hfive)
  obtain ⟨u, hcollect, hphase, hpages, -, hlog⟩ := hall 5 6 hfuel hmax
  have hrun : ((Pager.make s .default .ok).iterate.1.collect 5 6).map
      (fun r : List (Except PagingError Record) × _ => (r.1.length, r.2.pages)) = some (0, 2) := by
    decide +kernel
  rw [hcollect, Option.map_some, Option.some.injEq, Prod.mk.injEq] at hrun
  obtain ⟨hnone, htwo⟩ := hrun
  have hitems :
      ((Request.select (.query q) rows).map .ok : List (Except PagingError Record)) = [] :=
    List.eq_nil_of_length_eq_zero hnone
  rw [hitems] at hcollect
  rw [htwo] at hlog
  exact ⟨hreached, source, s, outputs, u, hmake, hs, hcollect, hphase, htwo, hlog, hpages ▸ htwo,
    hevaluated⟩

/-- A start key whose number is no number: one row comes after it, but two pages are fetched. -/
theorem page_count_not_after_start :
    let row (range : String) : Record := ⟨.ofList [("h", .text "a"), ("r", .number range)]⟩
    let t := (Table.make "t" ⟨"h", some "r"⟩ 25 1).editAll [.insert (row "9"), .insert (row "10")]
    let q : QueryRequest := ⟨"t", .text "a", none, [], some 1, true⟩
    let start : ResumeKey := ⟨(row "1x").fields⟩
    t.Reached ∧ ∃ (source s : WalkSource Table) (items : List _) (u : Traversal _ Record),
      WalkSource.make t (.query q) = .ok source ∧ Configured source (some start) s ∧
      (Pager.make s .default .ok).iterate.1.collect 2 3 = some (items, u) ∧
      u.phase = .exhausted ∧ u.pages = 2 ∧ ∃ rows, (Request.query q).After t (some start) rows ∧
        max 1 (rows.length ⌈/⌉ t.effectivePageSize q.pageSize) = 1 := by
  intro row t q start
  have hreached : t.Reached := ⟨"t", ⟨"h", some "r"⟩, 25, 1, _, by decide +kernel, rfl⟩
  have hkey : t.keySchema "t" = .ok ⟨"h", some "r"⟩ := by decide +kernel
  let source : WalkSource Table := .query ⟨t, q, .start ⟨"h", some "r"⟩⟩
  let s : WalkSource Table := .query ⟨t, q, ⟨⟨"h", some "r"⟩, some start, false⟩⟩
  have hmake : WalkSource.make t (.query q) = .ok source := WalkSource.make_query hkey
  have hs : Configured source (some start) s := .set .fresh rfl
  have hrun : ((Pager.make s .default .ok).iterate.1.collect 2 3).map
      (fun r : List (Except PagingError Record) × _ => (r.2.phase, r.2.pages)) =
        some (.exhausted, 2) := by decide +kernel
  obtain ⟨⟨items, u⟩, hcollect, hu⟩ := Option.map_eq_some_iff.1 hrun
  obtain ⟨hphase, hpages⟩ := Prod.mk.inj hu
  have hstart : t.schema.Names start.fields (.text "a", .number "1x") :=
    Table.locate_eq_ok_iff.1 (by decide +kernel)
  have hnine : (Request.query q).Ahead (.text "a", .number "1x") (.text "a", .number "9") := by
    decide +kernel
  have hten : ¬ (Request.query q).Ahead (.text "a", .number "1x") (.text "a", .number "10") := by
    decide +kernel
  have hentries : t.entries =
      [((.text "a", .number "9"), row "9"), ((.text "a", .number "10"), row "10")] := by
    decide +kernel
  -- only the row under 9 comes after the start
  have hafter : (Request.query q).After t (some start) [((.text "a", .number "9"), row "9")] := by
    refine ⟨List.pairwise_singleton _ _, fun loc row' => ?_⟩
    rw [Table.rowAt_eq_some_iff hreached.wellFormed, hentries, List.mem_singleton]
    constructor
    · rintro ⟨rfl, rfl⟩
      refine ⟨List.mem_cons_self, by decide +kernel, ?_⟩
      rintro _ a ⟨⟩ hnames
      exact hnames.unique hstart ▸ hnine
    · rintro ⟨hmem, -, hahead⟩
      rw [List.mem_cons, List.mem_singleton] at hmem
      rcases hmem with hmem | ⟨rfl, rfl⟩
      · exact hmem
      · exact absurd (hahead start _ rfl hstart) hten
  exact ⟨hreached, source, s, items, u, hmake, hs, hcollect, hphase, hpages, _, hafter, by decide⟩

end Traversal

end CursorPaging
