import Mathlib.Order.Bounds.Defs
import CursorPaging.Proofs.Source.Fetches
import CursorPaging.Proofs.Traversal.Failing

/-!
# Fetching is lazy

A walk fetches only when it has nothing buffered, and not at all once its limit is used up unless it
is asked for results past it. So it never holds records of more than one page, and it has fetched no
more pages than the records that were asked for take.

* `lastRecords`, `recordCount`: the records of the last page, and the number of records of all;
* `call_fetches`: when a call may fetch; `leaves_buffersLast`: what is buffered is the end of the
  last page;
* `recordCount_dropLast_le`, `recordCount_dropLast_lt`: what the pages before the last hold;
* `firstPages_of_calls`: the pages that a walk has fetched are the first of its source;
* **`fetching_lazy`**.
-/

namespace CursorPaging

/-- The records of the last of some pages. -/
def lastRecords (pages : List Page) : List Record := (pages.getLast?.map (·.records)).getD []

/-- How many records some pages hold. -/
def recordCount (pages : List Page) : Nat := (pages.flatMap (·.records)).length

@[simp] theorem lastRecords_concat (pages : List Page) (page : Page) :
    lastRecords (pages ++ [page]) = page.records := by
  rw [lastRecords, List.getLast?_concat]
  rfl

theorem recordCount_append (pages more : List Page) :
    recordCount (pages ++ more) = recordCount pages + recordCount more := by
  rw [recordCount, List.flatMap_append, List.length_append]
  rfl

theorem recordCount_mono {pages more : List Page} (h : pages <+: more) :
    recordCount pages ≤ recordCount more := by
  obtain ⟨rest, rfl⟩ := h
  rw [recordCount_append]
  exact Nat.le_add_right _ _

namespace Traversal

/-! ## When a call fetches -/

section Sources

variable {σ α : Type} [PageSource σ] {fuel : Nat} {t u : Traversal σ α}
  {r : Except PagingError Bool} {ask : Ask} {answer : Answer α} {c : Call}

theorem LooksAhead.eq_of_buffered (h : LooksAhead fuel t r u) (hbuffer : t.buffer ≠ []) :
    u = t := by
  cases h with
  | buffered => rfl
  | past buffer => exact absurd buffer hbuffer
  | ahead buffer => exact absurd buffer hbuffer

theorem Leaves.source_of_buffered (h : Leaves fuel t ask answer u) (hbuffer : t.buffer ≠ []) :
    u.source = t.source := by
  cases h with
  | same => rfl
  | reached => rfl
  | failed phase alive look => rw [look.eq_of_buffered hbuffer]
  | nothing answer alive limit look => rw [look.eq_of_buffered hbuffer]
  | found answer alive limit look => rw [look.eq_of_buffered hbuffer]
  | taken answer alive limit look => rw [look.eq_of_buffered hbuffer]; rfl
  | past answer alive limit look => rw [look.eq_of_buffered hbuffer]

theorem HasNext.source_of_reached (h : HasNext fuel t r u) (hlimit : t.limit.isReached = true) :
    u.source = t.source := by
  cases h with
  | failed => rfl
  | reached => rfl
  | failure alive limit => rw [hlimit] at limit; cases limit
  | nothing alive limit => rw [hlimit] at limit; cases limit
  | found alive limit => rw [hlimit] at limit; cases limit

theorem source_of_reached (hask : t.ask fuel ask = some (answer, u))
    (hlimit : t.limit.isReached = true) (hne : ask ≠ .hasResultsPastLimit) :
    u.source = t.source := by
  cases asked_of_eq hask with
  | hasNext run => exact run.source_of_reached hlimit
  | nextItem run =>
    cases run with
    | reached => rfl
    | failure limit next => exact next.source_of_reached hlimit
    | nothing limit next => exact next.source_of_reached hlimit
    | taken next => exact next.source_of_reached hlimit
  | next run =>
    cases run with
    | failed => rfl
    | failure alive next => exact next.source_of_reached hlimit
    | nothing next => exact next.source_of_reached hlimit
    | taken next => exact next.source_of_reached hlimit
  | hasResultsPastLimit => exact absurd rfl hne

/-- **A call that reaches the source** found nothing buffered. -/
theorem call_fetches (h : t.call fuel c = some (answer, u)) (hsource : u.source ≠ t.source) :
    t.buffer = [] ∧ (t.limit.isReached = true → c = .ask .hasResultsPastLimit) := by
  cases c with
  | ask ask =>
    refine ⟨?_, fun hlimit => congrArg Call.ask ?_⟩
    · by_contra hbuffer
      exact hsource ((leaves_of_eq h).source_of_buffered hbuffer)
    · by_contra hne
      exact hsource (source_of_reached h hlimit hne)
  | resumeKey removeHashKey =>
    cases h
    exact absurd rfl hsource
  | position removeHashKey =>
    cases h
    exact absurd rfl hsource

/-- A call hands out a result only after it has found something, and then it takes it from the
buffer. -/
theorem taken_of_results (hask : t.ask fuel ask = some (answer, u)) (h : answer.results ≠ []) :
    ∃ w record rest, HasNext fuel t (.ok true) w ∧ w.buffer = record :: rest ∧
      u = w.take record rest ∧ answer.results = (w.materialize record).toOption.toList := by
  cases asked_of_eq hask with
  | hasNext => exact absurd rfl h
  | nextItem run =>
    cases run with
    | reached => exact absurd rfl h
    | failure => exact absurd rfl h
    | nothing => exact absurd rfl h
    | @taken w record rest next buffer =>
      refine ⟨w, record, rest, next, buffer, rfl, ?_⟩
      cases w.materialize record <;> rfl
  | next run =>
    cases run with
    | failed => exact absurd rfl h
    | failure => exact absurd rfl h
    | nothing => exact absurd rfl h
    | @taken w record rest next buffer =>
      refine ⟨w, record, rest, next, buffer, rfl, ?_⟩
      cases w.materialize record <;> rfl
  | hasResultsPastLimit => exact absurd rfl h

end Sources

/-! ## What is buffered -/

variable {σ α : Type} [PageSource σ] {fuel : Nat} {t u : Traversal (Watched σ) α}
  {r : Except PagingError Bool} {ask : Ask} {answer : Answer α} {limit : Limit}
  {taken : List Record} {fetched : List Page}

/-- What a walk has buffered is the end of the last page that it fetched. -/
def BuffersLast (t : Traversal (Watched σ) α) : Prop := t.buffer <:+ lastRecords t.source.pages

theorem Fetches.buffersLast (h : Fetches fuel t r u) (hbuffer : t.buffer = []) : u.BuffersLast := by
  induction h with
  | @dry fuel t more =>
    rw [BuffersLast, hbuffer]
    exact List.nil_suffix
  | @failure fuel t e source more fetch =>
    change t.buffer <:+ _
    rw [hbuffer]
    exact List.nil_suffix
  | @found fuel t page source more fetch records =>
    change t.buffer ++ page.records <:+ lastRecords source.pages
    rw [hbuffer, Watched.pages_of_page fetch, lastRecords_concat]
    exact List.suffix_refl _
  | @last fuel t page source more fetch records done =>
    change t.buffer <:+ _
    rw [hbuffer]
    exact List.nil_suffix
  | skip more fetch records continues rest ih => exact ih hbuffer

theorem LooksAhead.buffersLast (h : LooksAhead fuel t r u) (ht : t.BuffersLast) :
    u.BuffersLast := by
  cases h with
  | buffered => exact ht
  | past buffer phase fetches => exact fetches.buffersLast buffer
  | ahead buffer phase fetches => exact fetches.buffersLast buffer

/-- **Every call keeps it** that the buffer is the end of the last page. -/
theorem leaves_buffersLast (h : Leaves fuel t ask answer u) (ht : t.BuffersLast) :
    u.BuffersLast := by
  cases h with
  | same => exact ht
  | reached => exact ht
  | failed phase alive look => exact look.buffersLast ht
  | nothing answer alive limit look => exact look.buffersLast ht
  | found answer alive limit look => exact look.buffersLast ht
  | @taken w record rest answer alive limit look buffer =>
    have hw : record :: rest <:+ lastRecords w.source.pages := buffer ▸ look.buffersLast ht
    exact (List.suffix_cons record rest).trans hw
  | past answer alive limit look => exact look.buffersLast ht

/-! ## How much was fetched -/

omit [PageSource σ] in
theorem recordCount_dropLast_le (h : Conserved limit taken t.source.pages t) (ht : t.BuffersLast) :
    recordCount t.source.pages.dropLast ≤ taken.length := by
  rw [BuffersLast] at ht
  have hrecords := congrArg List.length h.records
  rcases List.eq_nil_or_concat t.source.pages with hnil | ⟨pages, page, hpages⟩
  · rw [hnil]
    exact Nat.zero_le _
  · rw [List.concat_eq_append] at hpages
    rw [hpages, lastRecords_concat] at ht
    rw [hpages] at hrecords ⊢
    rw [List.dropLast_concat]
    have hbuffer := ht.length_le
    simp only [List.flatMap_append, List.flatMap_singleton, List.length_append] at hrecords
    rw [recordCount]
    omega

/-- If the last call handed out a record, the pages before the last did not hold it. -/
theorem recordCount_dropLast_lt {cs : List Call} {raw : List (Answer Record)}
    {t u : Traversal (Watched σ) Record} (hm : t.materialize = .ok)
    (h : calls fuel cs t = some (raw, u)) : ∀ {taken : List Record} {last : Answer Record},
      Conserved limit taken t.source.pages t → t.BuffersLast → raw.getLast? = some last →
        last.results ≠ [] →
          recordCount u.source.pages.dropLast < (taken ++ raw.flatMap Answer.results).length := by
  induction cs generalizing t raw with
  | nil =>
    intro taken last _ _ hlast
    cases h
    cases hlast
  | cons c rest ih =>
    intro taken last hconserved hbuffers hlast hresults
    obtain ⟨first, v, later, hcall, hlater, rfl⟩ := calls_cons h
    obtain ⟨hv, hmv⟩ := conserved_call hm hcall hconserved
    have hcalled : calls fuel [c] t = some ([first], v) := by
      rw [calls, hcall]
      rfl
    have hbuffersv : v.BuffersLast := calls_keeps_left leaves_buffersLast hcalled hbuffers
    cases later with
    | cons answer more =>
      rw [List.getLast?_cons_cons] at hlast
      have hmore := ih hmv hlater hv hbuffersv hlast hresults
      rwa [List.append_assoc, ← List.flatMap_cons] at hmore
    | nil =>
      -- the last call looks for the record and then takes it out
      obtain rfl : rest = [] := by
        cases rest with
        | nil => rfl
        | cons c more =>
          obtain ⟨_, _, _, -, -, heq⟩ := calls_cons hlater
          cases heq
      cases hlater
      cases hlast
      cases c with
      | ask ask =>
        obtain ⟨w, record, left, hnext, hbuffer, rfl, hrecord⟩ := taken_of_results hcall hresults
        have hw : Conserved limit taken w.source.pages w := conserved_looks hnext.looks hconserved
        have hbuffersw : w.BuffersLast := by
          cases hnext with
          | found alive limit look => exact look.buffersLast hbuffers
        have hle := recordCount_dropLast_le hw hbuffersw
        have hone : first.results = [record] := by
          rw [hrecord, hnext.looks.materialize, hm]
          rfl
        rw [List.flatMap_singleton, hone, List.length_append]
        exact Nat.lt_succ_of_le hle
      | resumeKey removeHashKey =>
        cases hcall
        exact absurd rfl hresults
      | position removeHashKey =>
        cases hcall
        exact absurd rfl hresults

/-! ## The first pages of a source -/

theorem outcomes_of_calls {source : σ} {codec : PositionCodec} {m : Record → Except PagingError α}
    {cs : List Call} {answers : List (Answer α)}
    (h : calls fuel cs (start (.fromStart source) limit codec m) = some (answers, u)) :
    ∃ (pages : List Page) (failure : Option PagingError),
      u.source.outcomes = pages.map .ok ++ failure.toList.map .error := by
  rcases calls_fails cs (by simp [start]) h with hfares | ⟨-, hfails⟩
  · obtain ⟨pages, hpages⟩ := hfares.outcomes
    exact ⟨pages, none, hpages.trans (List.append_nil _).symm⟩
  · obtain ⟨-, hfares, -, hfailed⟩ := hfails
    obtain ⟨pages, hpages⟩ := hfares.outcomes
    obtain ⟨more, e, -, hmore⟩ := hfailed.outcomes
    refine ⟨pages ++ more, some e, ?_⟩
    rw [hmore, hpages, List.map_append, List.append_assoc, List.append_assoc]
    rfl

/-- **The pages that a walk has fetched** are the first of its source. -/
theorem firstPages_of_calls {source : σ} {codec : PositionCodec}
    {m : Record → Except PagingError α} {cs : List Call} {answers : List (Answer α)}
    (h : calls fuel cs (start (.fromStart source) limit codec m) = some (answers, u)) {p : Nat}
    (hp : p ≤ u.source.pages.length) : firstPages p source = u.source.pages.take p := by
  obtain ⟨pages, failure, houtcomes⟩ := outcomes_of_calls h
  have htracks := (calls_tracks h (Watched.tracks_start source)).outcomes
  have hok (l : List Page) : (l.map Except.ok : List (Except PagingError Page)).filterMap
      Except.toOption = l := by simp [List.filterMap_map, Function.comp_def, Except.toOption]
  have hpages : u.source.pages = pages := by
    rw [Watched.pages, houtcomes, List.filterMap_append, hok]
    cases failure <;> simp [Except.toOption]
  rw [hpages] at hp ⊢
  have hlength : p ≤ u.source.outcomes.length := by
    rw [houtcomes, List.length_append, List.length_map]
    omega
  have hfirst : firstOutcomes p source = (pages.take p).map .ok := by
    rw [← take_firstOutcomes hlength, ← htracks, houtcomes,
      List.take_append_of_le_length (by rwa [List.length_map]), List.map_take]
  rw [firstPages, hfirst, hok]

theorem recordCount_firstPages_le {source : σ} {codec : PositionCodec}
    {m : Record → Except PagingError α} {cs : List Call} {answers : List (Answer α)}
    (h : calls fuel cs (start (.fromStart source) limit codec m) = some (answers, u)) {p : Nat}
    (hp : p < u.source.pages.length) :
    recordCount (firstPages p source) ≤ recordCount u.source.pages.dropLast := by
  have hcut : u.source.pages.take p = u.source.pages.dropLast.take p := by
    rw [List.dropLast_eq_take, List.take_take, Nat.min_eq_left (by omega)]
  rw [firstPages_of_calls h (Nat.le_of_lt hp), hcut]
  exact recordCount_mono (List.take_prefix p _)

/-- **Fetching is lazy.** A call fetches only if nothing is buffered, and past the limit only if it
asks for results there. No more pages are fetched than the first that hold more than the records
handed out. -/
theorem fetching_lazy (source : σ) (limit : Limit) (codec : PositionCodec)
    (m : Record → Except PagingError α) (fuel : Nat) (cs : List Call) {answers : List (Answer α)}
    {t : Traversal σ α} (h : calls fuel cs (start source limit codec m) = some (answers, t)) :
    ∃ (raw : List (Answer Record)) (u : Traversal (Watched σ) Record),
      calls fuel cs (start (.fromStart source) limit codec .ok) = some (raw, u) ∧
      answers = raw.map (·.bind m) ∧ t = u.view Watched.inner m ∧
      (∀ fuel c answer v, u.call fuel c = some (answer, v) →
        v.source.outcomes ≠ u.source.outcomes →
        u.buffer = [] ∧ (u.limit.isReached = true → c = .ask .hasResultsPastLimit)) ∧
      t.buffer <:+ lastRecords u.source.pages ∧
      (∀ p, (raw.flatMap Answer.results).length < recordCount (firstPages p source) →
        t.pages ≤ (firstPages p source).length) ∧
      ∀ last, raw.getLast? = some last → last.results ≠ [] →
        IsLeast {p | (raw.flatMap Answer.results).length ≤ recordCount (firstPages p source)}
          t.pages := by
  obtain ⟨raw, u, hraw, rfl, rfl, hconserved⟩ := calls_conserve source limit codec m fuel cs h
  have hbuffers : u.BuffersLast :=
    calls_keeps_left leaves_buffersLast hraw List.nil_suffix
  have hwatched : Conserved limit (raw.flatMap Answer.results) u.source.pages u :=
    ⟨hconserved.records, hconserved.pages, hconserved.lastExamined, hconserved.unbounded,
      hconserved.bounded⟩
  have hpages : u.pages = u.source.pages.length := hwatched.pages
  refine ⟨raw, u, hraw, rfl, rfl, fun fuel c answer v hcall houtcomes => ?_, hbuffers,
    fun p hp => ?_, fun last hlast hresults =>
      ⟨?_, fun p (hp : _ ≤ recordCount (firstPages p source)) => ?_⟩⟩
  · exact call_fetches hcall fun hsource => houtcomes (congrArg Watched.outcomes hsource)
  · change u.pages ≤ _
    rcases Nat.lt_or_ge p u.source.pages.length with hless | hmore
    · have hbefore := recordCount_firstPages_le hraw hless
      have hheld := recordCount_dropLast_le hwatched hbuffers
      omega
    · have hfetched := (firstPages_mono hmore source).length_le
      rwa [firstPages_of_calls hraw (Nat.le_refl _), List.take_length, ← hpages] at hfetched
  · change _ ≤ recordCount (firstPages u.pages source)
    rw [firstPages_of_calls hraw (Nat.le_of_eq hpages), hpages, List.take_length, recordCount,
      ← hwatched.records, List.length_append]
    exact Nat.le_add_right _ _
  · by_contra hless
    have hbefore := recordCount_firstPages_le hraw (hpages ▸ Nat.not_le.1 hless)
    have hheld := recordCount_dropLast_lt rfl hraw
      (conserved_start _ limit codec .ok) List.nil_suffix hlast hresults
    rw [List.nil_append] at hheld
    omega

/-- An empty page is skipped, and the third record is on the third page. -/
theorem fetching_lazy_on_third_page :
    let record (name : String) : Record := ⟨⟨[("name", .text name)], List.pairwise_singleton _ _⟩⟩
    let script : Script := ⟨[.ok ⟨[record "a", record "b"], .done⟩, .ok ⟨[], .pending [default]⟩,
      .ok ⟨[record "c", record "d"], .done⟩, .ok ⟨[record "e"], .done⟩], .scan⟩
    let cs : List Call := [.ask .nextItem, .ask .hasNext, .ask .nextItem, .ask .nextItem]
    ∃ answers t, calls 2 cs (start script .unbounded .default .ok) = some (answers, t) ∧
      t.buffer = [record "d"] ∧ t.pages = 3 ∧
      IsLeast {p | 3 ≤ recordCount (firstPages p script)} t.pages := by
  intro record script cs
  have hrun : (calls 2 cs (start script .unbounded .default .ok)).map
      (fun r => (r.2.buffer, r.2.pages)) = some ([record "d"], 3) := by decide +kernel
  have hresults : (calls 2 cs (start (Watched.fromStart script) .unbounded .default .ok)).map
      (·.1.map Answer.results) = some [[record "a"], [], [record "b"], [record "c"]] := by
    decide +kernel
  obtain ⟨⟨answers, t⟩, hcalls, ht⟩ := Option.map_eq_some_iff.1 hrun
  obtain ⟨hbuffer, hpages⟩ := Prod.mk.inj ht
  obtain ⟨raw, u, hraw, -, -, -, -, -, hleast⟩ :=
    fetching_lazy script .unbounded .default .ok 2 cs hcalls
  rw [hraw, Option.map_some, Option.some.injEq] at hresults
  have hlast := congrArg List.getLast? hresults
  rw [List.getLast?_map] at hlast
  obtain ⟨last, hlast, hrecord⟩ := Option.map_eq_some_iff.1 hlast
  have hthree := hleast last hlast (by rw [hrecord]; exact List.cons_ne_nil _ _)
  rw [List.flatMap_def, hresults] at hthree
  exact ⟨answers, t, hcalls, hbuffer, hpages, hthree⟩

end Traversal

end CursorPaging
