import CursorPaging.Proofs.Table.Page
import CursorPaging.Proofs.Table.Rows

/-!
# Answers after any start key

What a table answers to a query or a scan after a start key, stored or not, and whatever its numbers
look like. A key of finite numbers starts a walk right after itself. One whose numbers are no
numbers still cuts off an end of the walk, but the order may not put it there.

* `Request.After`: the rows that come after a start key;
* `queryRows_suffix`, `scanRows_suffix`: what is read is the end of the walk, after any start;
* `Request.Starts`, **`page_of_starts`**: a start key is answered by a page of such rows,
  `page_again`: and its last key by a page of those behind;
* `QueryFault`, `queryStart_cases`: why a query is refused;
* **`query_answers`**, **`scan_answers`**.
-/

namespace CursorPaging

namespace Request

variable {r : Request} {t : Table} {loc : Location} {row : Record} {q : QueryRequest}
  {s : ScanRequest} {start : Option ResumeKey} {rows : List (Location × Record)}

/-- The rows of a request that come after a start key, if there is one, in the order of its walk. -/
structure After (r : Request) (t : Table) (start : Option ResumeKey)
    (rows : List (Location × Record)) : Prop where
  sorted : rows.Pairwise fun a b => r.Ahead a.1 b.1
  mem : ∀ loc row, (loc, row) ∈ rows ↔ t.rowAt loc = some row ∧ r.covers loc = true ∧
    ∀ key a, start = some key → t.schema.Names key.fields a → r.Ahead a loc

/-! ## Ends of a walk -/

theorem filter_suffix_of_sorted {α : Type} {R : α → α → Prop} {p : α → Bool} : ∀ {l : List α},
    l.Pairwise R → (∀ a ∈ l, ∀ b ∈ l, R a b → p a = true → p b = true) → l.filter p <:+ l
  | [], _, _ => List.suffix_refl _
  | a :: l, hsorted, hup => by
    obtain ⟨hhead, hrest⟩ := List.pairwise_cons.1 hsorted
    by_cases ha : p a = true
    · have hall : ∀ b ∈ a :: l, p b = true := List.forall_mem_cons.2 ⟨ha, fun b hb =>
        hup a List.mem_cons_self b (List.mem_cons_of_mem _ hb) (hhead b hb) ha⟩
      exact ⟨[], (List.nil_append _).trans (List.filter_eq_self.2 hall)⟩
    · rw [List.filter_cons_of_neg ha]
      exact (filter_suffix_of_sorted hrest fun b hb c hc => hup b (List.mem_cons_of_mem _ hb) c
        (List.mem_cons_of_mem _ hc)).trans (List.suffix_cons _ _)

theorem readsAfter_suffix (h : t.WellFormed) {start : Option Location}
    (hstart : ∀ a, start = some a → a.Sound) : r.readsAfter t start <:+ r.reads t := by
  cases start with
  | none => exact List.suffix_refl _
  | some a =>
    refine filter_suffix_of_sorted (reads_sorted h) fun b hb c hc hbc hab => decide_eq_true ?_
    exact ahead_trans (hstart a rfl) (locates_of_mem_reads h hb).sound
      (locates_of_mem_reads h hc).sound (of_decide_eq_true hab) hbc

theorem located_suffix (hash : Scalar) {rows rows' : Partition} (h : rows <:+ rows') :
    Table.located hash rows <:+ Table.located hash rows' := h.map _

/-- **A query reads the end of its walk**, whatever it starts after. -/
theorem queryRows_suffix (h : t.WellFormed) (q : QueryRequest) (start : Option Scalar) :
    ∃ rows, rows <:+ (query q).reads t ∧ t.queryRows q start = rows.map (·.2) := by
  let inRange (e : Scalar × Record) : Bool := q.range.all (·.holds e.1)
  have hwalk := Table.walk_suffix (t.partition q.hash) start q.forward
  have hreads : (query q).reads t = Table.located q.hash
      ((Table.walk (t.partition q.hash) none q.forward).filter inRange) := reads_query h
  exact ⟨_, hreads ▸ located_suffix q.hash (hwalk.filter inRange), (map_snd_located _ _).symm⟩

/-- Of the first partition that a scan does not pass over it reads the rows after its start, and all
of the later ones. -/
theorem startingAt_suffix (hash range : Scalar) : ∀ {partitions : List (Scalar × Partition)},
    Ordered.Sorted partitions →
      ((Ordered.startingAt hash partitions).flatMap fun p =>
        Table.located p.1 (Table.walk p.2 (if hash = p.1 then some range else none) true)) <:+
      partitions.flatMap fun p => Table.located p.1 p.2
  | [], _ => List.suffix_refl _
  | (k, rows) :: rest, h => by
    have hwhole (hne : ∀ p ∈ rest, p.1 ≠ hash) :
        (rest.flatMap fun p =>
          Table.located p.1 (Table.walk p.2 (if hash = p.1 then some range else none) true)) =
        rest.flatMap fun p => Table.located p.1 p.2 := by
      refine List.flatMap_congr fun p hp => ?_
      rw [if_neg (hne p hp).symm]
      rfl
    have hhead : Table.located k (Table.walk rows (if hash = k then some range else none) true) <:+
        Table.located k rows := located_suffix k (Table.walk_suffix _ _ true)
    rw [Ordered.startingAt]
    cases horder : hash.order k with
    | gt =>
      have hrest := startingAt_suffix hash range (Ordered.sorted_cons.1 h).2
      rw [List.flatMap_cons]
      exact hrest.trans (List.suffix_append _ _)
    | eq =>
      obtain rfl := Scalar.order_eq_iff.1 horder
      rw [List.flatMap_cons, List.flatMap_cons, hwhole fun p hp => Ordered.ne_of_mem_rest h hp]
      exact List.suffix_append_self_iff.2 hhead
    | lt =>
      have hne {p : Scalar × Partition} := Ordered.ne_of_order_lt (e := p) h horder
      rw [List.flatMap_cons, List.flatMap_cons, hwhole fun p hp => hne (List.mem_cons_of_mem _ hp)]
      exact List.suffix_append_self_iff.2 hhead

/-- **A scan reads the end of its walk**, whatever it starts after. -/
theorem scanRows_suffix (h : t.WellFormed) (s : ScanRequest) (start : Location) :
    ∃ rows, rows <:+ (scan s).reads t ∧ t.scanRows (some start) = rows.map (·.2) := by
  obtain ⟨hash, range⟩ := start
  have hsuffix := startingAt_suffix hash range h.partitions
  rw [← Table.entries, ← reads_scan (s := s)] at hsuffix
  refine ⟨_, hsuffix, ?_⟩
  rw [List.map_flatMap]
  simp only [map_snd_located]
  rfl

/-! ## Start keys -/

/-- A start key, if there is one, names a location where the request reads, by texts and numbers. -/
def Starts (r : Request) (schema : KeySchema) (start : Option ResumeKey) : Prop :=
  ∀ key, start = some key → ∃ loc, schema.Names key.fields loc ∧ r.Owns loc

/-- If there is a start key, its numbers are finite numbers. -/
def FiniteStart (schema : KeySchema) (start : Option ResumeKey) : Prop :=
  ∀ key, start = some key → Table.FiniteKey schema key.fields

theorem Starts.startsAt (h : r.Starts t.schema start) (hfinite : FiniteStart t.schema start) :
    ∃ loc, r.StartsAt t.schema start loc := by
  cases start with
  | none => exact ⟨none, .none⟩
  | some key =>
    obtain ⟨loc, hnames, howns⟩ := h key rfl
    have hlocates := Table.locates_of_locate (hfinite key rfl) (Table.locate_eq_ok_iff.2 hnames)
    exact ⟨some loc, .some hlocates howns⟩

theorem after_readsAfter (h : t.WellFormed) {at_ : Option Location}
    (hstart : r.StartsAt t.schema start at_) : r.After t start (r.readsAfter t at_) where
  sorted := (reads_sorted h).sublist (readsAfter_sublist r t at_)
  mem loc row := by
    have hread : (loc, row) ∈ r.reads t ↔ t.rowAt loc = some row ∧ r.covers loc = true := by
      rw [mem_reads_iff, Table.rowAt_eq_some_iff h]
    cases hstart with
    | none =>
      rw [readsAfter, hread]
      simp
    | @some key a located owns =>
      have hahead : (∀ key' b, some key = some key' → t.schema.Names key'.fields b →
          r.Ahead b loc) ↔ r.Ahead a loc := by
        refine ⟨fun hall => hall key a rfl located.names, ?_⟩
        rintro hahead _ b ⟨⟩ hnames
        rwa [hnames.unique located.names]
      rw [readsAfter, List.mem_filter, hread, decide_eq_true_eq, hahead, and_assoc]

/-- **A start key is answered by a page of an end of the walk**, of the rows after it if its numbers
are finite. -/
theorem page_of_starts (h : t.WellFormed) (hfits : r.Fits t) (hstart : r.Starts t.schema start) :
    ∃ rows, rows <:+ r.reads t ∧ r.page t start =
        (t.readPage (rows.map (·.2)) (t.effectivePageSize r.pageSize) r.filters, t) ∧
      (FiniteStart t.schema start → r.After t start rows) := by
  by_cases hfinite : FiniteStart t.schema start
  · obtain ⟨at_, hat⟩ := hstart.startsAt hfinite
    exact ⟨r.readsAfter t at_, readsAfter_suffix h fun a ha => hat.sound ha,
      page_eq_readPage h hfits hat, fun _ => after_readsAfter h hat⟩
  · -- the order need not be transitive on such a key, so only the recursions say what is read
    cases start with
    | none => exact absurd nofun hfinite
    | some key =>
      obtain ⟨loc, hnames, howns⟩ := hstart key rfl
      cases r with
      | query q =>
        obtain ⟨rows, hsuffix, hrows⟩ := queryRows_suffix h q (some loc.2)
        refine ⟨rows, hsuffix, ?_, fun hfinite' => absurd hfinite' hfinite⟩
        rw [← hrows]
        exact Prod.ext (query_of_start hfits (queryStart_of_names hnames howns)) rfl
      | scan s =>
        obtain ⟨rows, hsuffix, hrows⟩ := scanRows_suffix h s loc
        refine ⟨rows, hsuffix, ?_, fun hfinite' => absurd hfinite' hfinite⟩
        rw [← hrows]
        exact Prod.ext (scan_of_names hfits hnames) rfl

/-- **The last key of a page** is answered by a page of the rows behind it. -/
theorem page_again (h : t.WellFormed) (hfits : r.Fits t) {size : Nat} {output : PageOutput}
    {key : ResumeKey} (hrows : rows <:+ r.reads t) (hpage : PageOf t size r.filters rows output)
    (hkey : output.lastKey = some key) : ∃ next, r.page t (some key) = (.ok next, t) ∧
      PageOf t (t.effectivePageSize r.pageSize) r.filters (rows.drop size) next := by
  have hlocated : ∀ e ∈ r.reads t, t.schema.Locates e.2.fields e.1 :=
    fun e he => locates_of_mem_reads h he
  have hmem {e : Location × Record} (he : e ∈ rows) : e ∈ r.reads t := hrows.subset he
  obtain ⟨read, loc, row, -, hsplit, hlast, hat⟩ :=
    hpage.split (fun e he => hlocated e (hmem he)) hkey
  obtain ⟨before, hbefore⟩ := hrows
  have hreads : r.readsAfter t none = (before ++ read) ++ (loc, row) :: rows.drop size := by
    rw [readsAfter, ← hbefore, List.append_assoc, ← hsplit]
  have hnone (a : Location) (ha : none = some a) : a.Sound :=
    absurd ha (Option.some_ne_none a).symm
  have hrest : r.readsAfter t (some loc) = rows.drop size := readsAfter_of_split h hnone hreads
  have howns : r.Owns loc := owns_of_covers (mem_reads_iff.1 (hmem hlast)).2
  obtain ⟨next, hnext, houtput⟩ := readPage_pageOf (Nat.le_max_left 1 (r.pageSize.getD t.pageSize))
    (fun e he => hlocated e (hmem (List.mem_of_mem_drop he))) r.filters
  refine ⟨next, ?_, houtput⟩
  rw [page_eq_readPage h hfits (.some hat howns), hrest, Table.effectivePageSize, hnext]

/-- **A start key is answered** as it is, and so is the last key of the answer. -/
theorem page_answers (h : t.WellFormed) (hfits : r.Fits t) (hstart : r.Starts t.schema start) :
    ∃ rows output, r.page t start = (.ok output, t) ∧ rows <:+ r.reads t ∧
      (FiniteStart t.schema start → r.After t start rows) ∧
      PageOf t (t.effectivePageSize r.pageSize) r.filters rows output ∧
      ∀ key pageSize, output.lastKey = some key →
        ∃ next, (r.withPageSize pageSize).page t (some key) = (.ok next, t) ∧
          PageOf t (t.effectivePageSize pageSize) r.filters
            (rows.drop (t.effectivePageSize r.pageSize)) next := by
  obtain ⟨rows, hsuffix, hpage, hafter⟩ := page_of_starts h hfits hstart
  obtain ⟨output, hread, houtput⟩ :=
    readPage_pageOf (Nat.le_max_left 1 (r.pageSize.getD t.pageSize))
    (fun e he => locates_of_mem_reads h (hsuffix.subset he)) r.filters
  refine ⟨rows, output, by rw [hpage, Table.effectivePageSize, hread], hsuffix, hafter, houtput,
    fun key pageSize hkey => ?_⟩
  have hfits' := fits_withPageSize hfits pageSize
  cases r with
  | query q => exact page_again h hfits' hsuffix houtput hkey
  | scan s => exact page_again h hfits' hsuffix houtput hkey

theorem After.ahead_of_mem_items {key : ResumeKey} {a : Location} {size : Nat}
    {filters : List Filter} {output : PageOutput} (h : r.After t (some key) rows)
    (hpage : PageOf t size filters rows output) (hnames : t.schema.Names key.fields a)
    (hrow : row ∈ output.items) : ∃ loc, t.rowAt loc = some row ∧ r.Ahead a loc := by
  rw [hpage.items] at hrow
  obtain ⟨⟨loc, _⟩, he, rfl⟩ := List.mem_map.1 (List.mem_filter.1 hrow).1
  obtain ⟨hstored, -, hahead⟩ := (h.mem loc _).1 (List.mem_of_mem_take he)
  exact ⟨loc, hstored, hahead key a rfl hnames⟩

end Request

namespace Table

open Request

variable {t : Table} {q : QueryRequest} {start : Option ResumeKey}

/-! ## Queries -/

/-- What is wrong with a query to a table of its name: a condition on range values that there are
none of, or a start key that names no location or one of another partition. -/
inductive QueryFault (t : Table) (q : QueryRequest) (start : Option ResumeKey) : KeyFault → Prop
  | noRangeKey (range : q.range.isSome = true) (hashOnly : t.schema.rangeKey = none) :
      QueryFault t q start .noRangeKey
  | key {key : ResumeKey} {fault : KeyFault} (started : start = some key)
      (flaw : t.schema.Flaw key.fields fault) : QueryFault t q start fault
  | otherPartition {key : ResumeKey} {loc : Location} (started : start = some key)
      (names : t.schema.Names key.fields loc) (other : loc.1 ≠ q.hash) :
      QueryFault t q start (.otherPartition loc.1 q.hash)

theorem queryStart_cases (t : Table) (q : QueryRequest) (start : Option ResumeKey) :
    ((Request.query q).Starts t.schema start ∧ ∃ range, t.queryStart q start = .ok range) ∨
      ∃ fault, QueryFault t q start fault ∧ t.queryStart q start = .error (t.invalid fault) := by
  cases start with
  | none => exact .inl ⟨(fun _ hkey => nomatch hkey), none, rfl⟩
  | some key =>
    rw [queryStart]
    rcases t.locate_cases key.fields with ⟨⟨hash, range⟩, hnames, hlocate⟩ | ⟨fault, hflaw, hlocate⟩
    · rw [hlocate]
      dsimp only
      split_ifs with hhash
      · refine .inl ⟨?_, some range, rfl⟩
        rintro _ ⟨⟩
        exact ⟨_, hnames, hhash⟩
      · exact .inr ⟨_, .otherPartition rfl hnames hhash, rfl⟩
    · rw [hlocate]
      exact .inr ⟨fault, .key rfl hflaw, rfl⟩

theorem not_queryFault (hstart : (Request.query q).Starts t.schema start)
    (hrange : q.range.isSome = true → t.schema.rangeKey ≠ none) {fault : KeyFault} :
    ¬ QueryFault t q start fault := by
  rintro (⟨range, hashOnly⟩ | ⟨started, flaw⟩ | ⟨started, names, other⟩)
  · exact hrange range hashOnly
  · obtain ⟨loc, hnames, -⟩ := hstart _ started
    exact flaw.not_names hnames
  · obtain ⟨loc, hnames, howns⟩ := hstart _ started
    exact other (names.unique hnames ▸ howns)

/-- **What a query answers** after any start key, if it is not refused: a page of an end of its
partition, and of just the rows after the start key if its numbers are finite. -/
theorem query_answers (h : t.Reached) (q : QueryRequest) (start : Option ResumeKey) :
    (q.table ≠ t.name ∧ t.query q start = .error (.unknownTable q.table)) ∨
    (q.table = t.name ∧ ∃ fault, QueryFault t q start fault ∧
      t.query q start = .error (t.invalid fault)) ∨
    (q.table = t.name ∧ (∀ fault, ¬ QueryFault t q start fault) ∧ ∃ rows output,
      t.query q start = .ok output ∧ rows <:+ (Request.query q).reads t ∧
      (FiniteStart t.schema start → (Request.query q).After t start rows) ∧
      PageOf t (max 1 (q.pageSize.getD t.pageSize)) q.filters rows output ∧
      ∀ key pageSize, output.lastKey = some key →
        ∃ next, t.query { q with pageSize } (some key) = .ok next ∧
          PageOf t (max 1 (pageSize.getD t.pageSize)) q.filters
            (rows.drop (max 1 (q.pageSize.getD t.pageSize))) next) := by
  by_cases hname : q.table = t.name
  · have hcheck : t.checkName q.table = .ok () := if_pos hname
    by_cases hrange : q.range.isSome = true ∧ t.schema.rangeKey = none
    · refine .inr (.inl ⟨hname, _, .noRangeKey hrange.1 hrange.2, ?_⟩)
      rw [query, hcheck, hrange.1, hrange.2]
      rfl
    · have hkeyed (hcondition : q.range.isSome = true) : t.schema.rangeKey ≠ none :=
        fun hnone => hrange ⟨hcondition, hnone⟩
      have hfits : (Request.query q).Fits t :=
        ⟨hname, fun hcondition => Option.isSome_iff_ne_none.2 (hkeyed hcondition)⟩
      rcases t.queryStart_cases q start with ⟨hstart, -⟩ | ⟨fault, hfault, hstart⟩
      · obtain ⟨rows, output, hpage, hsuffix, hafter, houtput, hagain⟩ :=
          page_answers h.wellFormed hfits hstart
        refine .inr (.inr ⟨hname, fun _ => not_queryFault hstart hkeyed, rows, output,
          (Prod.mk.inj hpage).1, hsuffix, hafter, houtput, fun key pageSize hkey => ?_⟩)
        obtain ⟨next, hnext, hrest⟩ := hagain key pageSize hkey
        exact ⟨next, (Prod.mk.inj hnext).1, hrest⟩
      · refine .inr (.inl ⟨hname, fault, hfault, ?_⟩)
        rw [query_of_fits hfits, hstart]
        rfl
  · refine .inl ⟨hname, ?_⟩
    rw [query, checkName, if_neg hname]
    rfl

/-- A page of one row, after a key between two rows that are stored. -/
theorem query_answers_between_rows :
    let row (range : String) : Record := ⟨.ofList [("h", .text "a"), ("r", .number range)]⟩
    let t := (make "t" ⟨"h", some "r"⟩ 1 1).editAll
      [.insert (row "10"), .insert (row "9"), .insert (row "11")]
    let q : QueryRequest := ⟨"t", .text "a", none, [], none, true⟩
    let start : Option ResumeKey := some ⟨(row "9.5").fields⟩
    t.Reached ∧ ∃ rows output, t.query q start = .ok output ∧ output.items = [row "10"] ∧
      output.lastKey = some ⟨(row "10").fields⟩ ∧ (Request.query q).After t start rows ∧
      PageOf t 1 [] rows output ∧ ∃ next, t.query q (some ⟨(row "10").fields⟩) = .ok next ∧
        PageOf t 1 [] (rows.drop 1) next := by
  intro row t q start
  have hreached : t.Reached := ⟨"t", ⟨"h", some "r"⟩, 1, 1, _, by decide +kernel, rfl⟩
  have hquery : t.query q start = .ok ⟨[row "10"], 1, some ⟨(row "10").fields⟩⟩ := by
    decide +kernel
  refine ⟨hreached, ?_⟩
  rcases query_answers hreached q start with ⟨hname, -⟩ | ⟨-, fault, -, herror⟩ |
    ⟨-, -, rows, output, houtput, -, hafter, hpage, hagain⟩
  · exact absurd rfl hname
  · cases hquery.symm.trans herror
  · have hfinite : FiniteStart t.schema start := by
      intro key hkey
      rw [← Option.some.inj hkey]
      decide +kernel
    cases hquery.symm.trans houtput
    exact ⟨rows, _, hquery, rfl, rfl, hafter hfinite, hpage, hagain _ none rfl⟩

/-- A start key whose number is no number: the page has a row that does not come after it. -/
theorem query_not_after_start :
    let row (range : String) : Record := ⟨.ofList [("h", .text "a"), ("r", .number range)]⟩
    let t := (make "t" ⟨"h", some "r"⟩ 25 1).editAll [.insert (row "9"), .insert (row "10")]
    let q : QueryRequest := ⟨"t", .text "a", none, [], none, true⟩
    let start : ResumeKey := ⟨(row "1x").fields⟩
    t.Reached ∧ ∃ output, t.query q (some start) = .ok output ∧
      output.items = [row "9", row "10"] ∧
      ¬ (Request.query q).Ahead (.text "a", .number "1x") (.text "a", .number "10") ∧
      ∀ rows, (Request.query q).After t (some start) rows → ¬ PageOf t 25 [] rows output := by
  intro row t q start
  have hreached : t.Reached := ⟨"t", ⟨"h", some "r"⟩, 25, 1, _, by decide +kernel, rfl⟩
  have hquery : t.query q (some start) = .ok ⟨[row "9", row "10"], 2, none⟩ := by decide +kernel
  have hnot : ¬ (Request.query q).Ahead (.text "a", .number "1x") (.text "a", .number "10") := by
    decide +kernel
  have hstart : t.schema.Names start.fields (.text "a", .number "1x") :=
    locate_eq_ok_iff.1 (by decide +kernel)
  have hten : t.schema.Names (row "10").fields (.text "a", .number "10") :=
    locate_eq_ok_iff.1 (by decide +kernel)
  refine ⟨hreached, _, hquery, rfl, hnot, fun rows hafter hpage => ?_⟩
  have hitem : row "10" ∈ [row "9", row "10"] := List.mem_cons_of_mem _ List.mem_cons_self
  obtain ⟨loc, hstored, hahead⟩ := hafter.ahead_of_mem_items hpage hstart hitem
  have hlocates := locates_of_mem_entries hreached.wellFormed
    ((rowAt_eq_some_iff hreached.wellFormed).1 hstored)
  exact hnot (hlocates.names.unique hten ▸ hahead)

/-! ## Scans -/

theorem scanStart_cases (t : Table) (s : ScanRequest) (start : Option ResumeKey) :
    (Request.scan s).Starts t.schema start ∨ ∃ key fault, start = some key ∧
      t.schema.Flaw key.fields fault ∧ t.locate key.fields = .error (t.invalid fault) := by
  cases start with
  | none => exact .inl fun _ hkey => nomatch hkey
  | some key =>
    rcases t.locate_cases key.fields with ⟨loc, hnames, -⟩ | ⟨fault, hflaw, hlocate⟩
    · refine .inl ?_
      rintro _ ⟨⟩
      exact ⟨loc, hnames, trivial⟩
    · exact .inr ⟨key, fault, rfl, hflaw, hlocate⟩

/-- **What a scan answers** after any start key, if it is not refused: a page of an end of all rows,
and of just those after the start key if its numbers are finite. -/
theorem scan_answers (h : t.Reached) (s : ScanRequest) (start : Option ResumeKey) :
    (s.table ≠ t.name ∧ t.scan s start = .error (.unknownTable s.table)) ∨
    (s.table = t.name ∧ ∃ key fault, start = some key ∧ t.schema.Flaw key.fields fault ∧
      t.scan s start = .error (t.invalid fault)) ∨
    (s.table = t.name ∧ (∀ key, start = some key → ∃ loc, t.schema.Names key.fields loc) ∧
      ∃ rows output, t.scan s start = .ok output ∧ rows <:+ t.entries ∧
      (FiniteStart t.schema start → (Request.scan s).After t start rows) ∧
      PageOf t (max 1 (s.pageSize.getD t.pageSize)) s.filters rows output ∧
      ∀ key pageSize, output.lastKey = some key →
        ∃ next, t.scan { s with pageSize } (some key) = .ok next ∧
          PageOf t (max 1 (pageSize.getD t.pageSize)) s.filters
            (rows.drop (max 1 (s.pageSize.getD t.pageSize))) next) := by
  by_cases hname : s.table = t.name
  · have hfits : (Request.scan s).Fits t := ⟨hname, fun hrange => nomatch hrange⟩
    rcases t.scanStart_cases s start with hstart | ⟨key, fault, rfl, hflaw, hlocate⟩
    · obtain ⟨rows, output, hpage, hsuffix, hafter, houtput, hagain⟩ :=
        page_answers h.wellFormed hfits hstart
      refine .inr (.inr ⟨hname, fun key hkey => (hstart key hkey).imp fun _ hloc => hloc.1, rows,
        output, (Prod.mk.inj hpage).1, reads_scan (s := s) ▸ hsuffix, hafter, houtput,
        fun key pageSize hkey => ?_⟩)
      obtain ⟨next, hnext, hrest⟩ := hagain key pageSize hkey
      exact ⟨next, (Prod.mk.inj hnext).1, hrest⟩
    · have hcheck : t.checkName s.table = .ok () := if_pos hname
      refine .inr (.inl ⟨hname, key, fault, rfl, hflaw, ?_⟩)
      rw [scan, hcheck]
      simp only [hlocate]
      rfl
  · refine .inl ⟨hname, ?_⟩
    rw [scan, checkName, if_neg hname]
    rfl

/-- A page that ends with its partition, after a key of a partition that no row is stored in. -/
theorem scan_answers_across_partitions :
    let row (hash range : String) : Record := ⟨.ofList [("h", .text hash), ("r", .number range)]⟩
    let t := (make "t" ⟨"h", some "r"⟩ 1 1).editAll
      [.insert (row "a" "1"), .insert (row "c" "2"), .insert (row "d" "0")]
    let s : ScanRequest := ⟨"t", [.equal "h" (.text "d")], none⟩
    let start : Option ResumeKey := some ⟨(row "b" "7").fields⟩
    t.Reached ∧ ∃ rows output, t.scan s start = .ok output ∧ output.items = [] ∧
      output.lastKey = some ⟨(row "c" "2").fields⟩ ∧ (Request.scan s).After t start rows ∧
      PageOf t 1 s.filters rows output ∧ ∃ next,
        t.scan s (some ⟨(row "c" "2").fields⟩) = .ok next ∧
          PageOf t 1 s.filters (rows.drop 1) next := by
  intro row t s start
  have hreached : t.Reached := ⟨"t", ⟨"h", some "r"⟩, 1, 1, _, by decide +kernel, rfl⟩
  have hscan : t.scan s start = .ok ⟨[], 1, some ⟨(row "c" "2").fields⟩⟩ := by decide +kernel
  refine ⟨hreached, ?_⟩
  rcases scan_answers hreached s start with ⟨hname, -⟩ | ⟨-, key, fault, -, -, herror⟩ |
    ⟨-, -, rows, output, houtput, -, hafter, hpage, hagain⟩
  · exact absurd rfl hname
  · cases hscan.symm.trans herror
  · have hfinite : FiniteStart t.schema start := by
      intro key hkey
      rw [← Option.some.inj hkey]
      decide +kernel
    cases hscan.symm.trans houtput
    exact ⟨rows, _, hscan, rfl, rfl, hafter hfinite, hpage, hagain _ none rfl⟩

/-- A start key whose number is no number, in a table without a range key: the page has a row that
does not come after it. -/
theorem scan_not_after_start :
    let row (hash : String) : Record := ⟨.ofList [("k", .number hash)]⟩
    let t := (make "t" ⟨"k", none⟩ 25 1).editAll [.insert (row "9"), .insert (row "10")]
    let s : ScanRequest := ⟨"t", [], none⟩
    let start : ResumeKey := ⟨(row "1x").fields⟩
    t.Reached ∧ ∃ output, t.scan s (some start) = .ok output ∧
      output.items = [row "9", row "10"] ∧
      ¬ (Request.scan s).Ahead (.number "1x", .null) (.number "10", .null) ∧
      ∀ rows, (Request.scan s).After t (some start) rows → ¬ PageOf t 25 [] rows output := by
  intro row t s start
  have hreached : t.Reached := ⟨"t", ⟨"k", none⟩, 25, 1, _, by decide +kernel, rfl⟩
  have hscan : t.scan s (some start) = .ok ⟨[row "9", row "10"], 2, none⟩ := by decide +kernel
  have hnot : ¬ (Request.scan s).Ahead (.number "1x", .null) (.number "10", .null) := by
    decide +kernel
  have hstart : t.schema.Names start.fields (.number "1x", .null) :=
    locate_eq_ok_iff.1 (by decide +kernel)
  have hten : t.schema.Names (row "10").fields (.number "10", .null) :=
    locate_eq_ok_iff.1 (by decide +kernel)
  refine ⟨hreached, _, hscan, rfl, hnot, fun rows hafter hpage => ?_⟩
  have hitem : row "10" ∈ [row "9", row "10"] := List.mem_cons_of_mem _ List.mem_cons_self
  obtain ⟨loc, hstored, hahead⟩ := hafter.ahead_of_mem_items hpage hstart hitem
  have hlocates := locates_of_mem_entries hreached.wellFormed
    ((rowAt_eq_some_iff hreached.wellFormed).1 hstored)
  exact hnot (hlocates.names.unique hten ▸ hahead)

end Table

end CursorPaging
