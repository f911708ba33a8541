import CursorPaging.Proofs.Source.Log

/-!
# Sources follow their store

What a source sends is set by the answers of its store, and by nothing else: its first call until a
fetch succeeds, then what the last success said to go on with. Failures leave it as it is.

* `QuerySource.setStart_cases`, `ScanSource.setStart_cases`: a start key is taken, or refused and
  the source is left as it is;
* `QuerySource.fetchPage_eq`, `ScanSource.fetchPage_eq`, `BatchSource.fetchPage_eq`: what a fetch
  brings and leaves, by the answer of the store;
* `Configured`: a source after the start keys that it took before its first fetch;
  `Configured.begins`: it begins at the last of them;
* `Retrying`: what failures leave, and what a page tells;
* **`continuation_followed`**.
-/

namespace CursorPaging

/-! ## Start keys -/

theorem StartCursor.set_cases (cursor : StartCursor) (key : ResumeKey) :
    cursor.set key = (.ok (), { cursor with startKey := some key }) ∨
      ∃ e, cursor.set key = (.error e, cursor) := by
  rw [set]
  split
  · exact .inr ⟨_, rfl⟩
  · exact .inl rfl

theorem QuerySource.setStart_cases {β : Type} (s : QuerySource β) (key : ResumeKey) :
    s.setStart key = (.ok (), { s with cursor := { s.cursor with startKey := some key } }) ∨
      ∃ e, s.setStart key = (.error e, s) := by
  rw [setStart]
  split
  · exact .inr ⟨_, rfl⟩
  · rcases s.cursor.set_cases key with hset | ⟨e, hset⟩
    · exact .inl (by rw [hset])
    · exact .inr ⟨e, by rw [hset]⟩

theorem ScanSource.setStart_cases {β : Type} (s : ScanSource β) (key : ResumeKey) :
    s.setStart key = (.ok (), { s with cursor := { s.cursor with startKey := some key } }) ∨
      ∃ e, s.setStart key = (.error e, s) := by
  rw [setStart]
  rcases s.cursor.set_cases key with hset | ⟨e, hset⟩
  · exact .inl (by rw [hset])
  · exact .inr ⟨e, by rw [hset]⟩

section Source

variable {σ τ : Type} [PageSource σ]

/-- A source after start keys that it took, with the last of them if there is one. -/
inductive Configured (source : σ) : Option ResumeKey → σ → Prop
  | fresh : Configured source none source
  | set {start : Option ResumeKey} {s u : σ} {key : ResumeKey} (before : Configured source start s)
      (accepted : PageSource.setStart s key = (.ok (), u)) : Configured source (some key) u

theorem Configured.begins {ρ : Type} {own : σ → ρ} {cursor : σ → StartCursor}
    (hset : ∀ (s u : σ) (key : ResumeKey), PageSource.setStart s key = (.ok (), u) →
      own u = own s ∧ cursor u = { cursor s with startKey := some key })
    {schema : KeySchema} {source s : σ} {start : Option ResumeKey}
    (h : Configured source start s) (hsource : cursor source = .start schema) :
    own s = own source ∧ cursor s = ⟨schema, start, false⟩ := by
  induction h with
  | fresh => exact ⟨rfl, hsource⟩
  | set before accepted ih =>
    obtain ⟨hown, hcursor⟩ := hset _ _ _ accepted
    exact ⟨hown.trans ih.1, by rw [hcursor, ih.2]⟩

/-- A failed fetch leaves what is the source's own, a refused start key leaves all of it, and after
a page there is more exactly if the page says so. -/
structure Retrying (own : σ → τ) : Prop where
  failed : ∀ (s u : σ) (e : PagingError), PageSource.fetchPage s = (.error e, u) → own u = own s
  refused : ∀ (s u : σ) (key : ResumeKey) (e : PagingError),
    PageSource.setStart s key = (.error e, u) → u = s
  truthful : Truthful σ

/-- Until a fetch succeeds, such a source has as much as at first. -/
theorem Retrying.hasMore {own : σ → τ} (h : Retrying own)
    (hown : ∀ s u : σ, own u = own s → PageSource.hasMore u = PageSource.hasMore s) {s : σ}
    {n : Nat}
    (hnone : firstPages n s = []) :
    PageSource.hasMore (afterFetches n s) = PageSource.hasMore s :=
  hasMore_afterFetches (fun s u e hfetch => hown s u (h.failed s u e hfetch)) hnone

theorem Retrying.hasMore_of_cursor {ρ : Type} {own : σ → ρ × StartCursor} (h : Retrying own)
    (hown : ∀ s, PageSource.hasMore s = (own s).2.hasMore) {s : σ} {n : Nat}
    (hfresh : (own s).2.fetched = false) (hnone : firstPages n s = []) :
    PageSource.hasMore (afterFetches n s) = true := by
  have hkept (a b : σ) (hab : own b = own a) : PageSource.hasMore b = PageSource.hasMore a := by
    rw [hown, hown, hab]
  rw [h.hasMore hkept hnone, hown, StartCursor.hasMore, hfresh]
  rfl

end Source

variable {β : Type}

/-- The cursor after an answer; a failure leaves it. -/
def StartCursor.after (cursor : StartCursor) : Except StoreError PageOutput → StartCursor
  | .ok output => cursor.advance output
  | .error _ => cursor

/-! ## Queries -/

namespace QuerySource

/-- The same source over a log of its store. -/
def logged (s : QuerySource β) : QuerySource (PageLog β) := ⟨.fresh s.store, s.request, s.cursor⟩

/-- The same source without the log. -/
def unlogged (s : QuerySource (PageLog β)) : QuerySource β := ⟨s.store.inner, s.request, s.cursor⟩

variable [QueryStore β]

theorem fetchPage_eq {s : QuerySource β} {answer : Except StoreError PageOutput} {store : β}
    (h : QueryStore.query s.store s.request s.cursor.startKey = (answer, store)) :
    PageSource.fetchPage s =
      (fetched StartCursor.page answer, { s with store, cursor := s.cursor.after answer }) := by
  change fetchPage s = _
  rw [fetchPage, h]
  cases answer <;> rfl

theorem retrying : Retrying fun s : QuerySource β => (s.request, s.cursor) where
  failed s u e h := by
    rcases hquery : QueryStore.query s.store s.request s.cursor.startKey with ⟨_ | _, store⟩
    · rw [fetchPage_eq hquery] at h
      cases h
      rfl
    · rw [fetchPage_eq hquery] at h
      cases h
  refused s u key e h := by
    rcases s.setStart_cases key with hset | ⟨e', hset⟩
    · cases hset.symm.trans h
    · exact (Prod.mk.inj (hset.symm.trans h)).2.symm
  truthful := QuerySource.truthful

theorem fetchPage_logged (s : QuerySource (PageLog β)) :
    ∃ answer inner, QueryStore.query s.store.inner s.request s.cursor.startKey = (answer, inner) ∧
      PageSource.fetchPage s = (fetched StartCursor.page answer,
        ⟨⟨inner, s.store.log ++ [((.query s.request, s.cursor.startKey), answer)]⟩, s.request,
          s.cursor.after answer⟩) :=
  ⟨_, _, rfl, fetchPage_eq rfl⟩

theorem calling :
    Calling (fun s : QuerySource (PageLog β) => s.store.log)
      (fun s => (.query s.request, s.cursor.startKey))
      (fun s output => (.query s.request, output.lastKey)) StartCursor.page where
  step s := by
    obtain ⟨answer, inner, -, hfetch⟩ := fetchPage_logged s
    rw [hfetch]
    refine ⟨answer, rfl, rfl, ?_, rfl⟩
    cases answer <;> rfl

theorem firstOutcomes_logged (n : Nat) (s : QuerySource β) :
    firstOutcomes n s = firstOutcomes n s.logged := by
  refine (firstOutcomes_of_map unlogged (fun s => ?_) n s.logged).2
  obtain ⟨answer, inner, hquery, hfetch⟩ := fetchPage_logged s
  rw [hfetch]
  exact fetchPage_eq hquery

theorem setStart_of_ok {s u : QuerySource β} {key : ResumeKey}
    (h : PageSource.setStart s key = (.ok (), u)) :
    u = { s with cursor := { s.cursor with startKey := some key } } := by
  rcases s.setStart_cases key with hset | ⟨e, hset⟩
  · exact (Prod.mk.inj (hset.symm.trans h)).2.symm
  · cases hset.symm.trans h

theorem make_cases {store : β} {request : QueryRequest} {source : QuerySource β}
    (h : QuerySource.make store request = .ok source) :
    ∃ schema, Store.keySchema store request.table = .ok schema ∧
      source = ⟨store, request, .start schema⟩ := by
  rw [make] at h
  split at h
  · exact ⟨_, ‹_›, (Except.ok.inj h).symm⟩
  · cases h

/-- **Any run of a query** after the start keys that it took. -/
theorem run {store : β} {request : QueryRequest} {source s : QuerySource β}
    {start : Option ResumeKey} (hmake : QuerySource.make store request = .ok source)
    (h : Configured source start s) (n : Nat) :
    LoggedRun n s (afterFetches n s.logged).store.log (.query request, start)
      (fun output => (.query request, output.lastKey)) StartCursor.page ∧
    (firstPages n s = [] → PageSource.hasMore (afterFetches n s) = true) := by
  obtain ⟨schema, -, rfl⟩ := make_cases hmake
  obtain ⟨rfl, hcursor⟩ : s.request = request ∧ s.cursor = _ :=
    h.begins (fun _ _ _ hset => by rw [setStart_of_ok hset]; exact ⟨rfl, rfl⟩) rfl
  obtain rfl : s.cursor.startKey = start := by rw [hcursor]
  exact ⟨(calling.afterFetches (s := s.logged) rfl n).1.of_outcomes (firstOutcomes_logged n s),
    retrying.hasMore_of_cursor (fun _ => rfl) (congrArg StartCursor.fetched hcursor)⟩

end QuerySource

/-! ## Scans -/

namespace ScanSource

/-- The same source over a log of its store. -/
def logged (s : ScanSource β) : ScanSource (PageLog β) := ⟨.fresh s.store, s.request, s.cursor⟩

/-- The same source without the log. -/
def unlogged (s : ScanSource (PageLog β)) : ScanSource β := ⟨s.store.inner, s.request, s.cursor⟩

variable [ScanStore β]

theorem fetchPage_eq {s : ScanSource β} {answer : Except StoreError PageOutput} {store : β}
    (h : ScanStore.scan s.store s.request s.cursor.startKey = (answer, store)) :
    PageSource.fetchPage s =
      (fetched StartCursor.page answer, { s with store, cursor := s.cursor.after answer }) := by
  change fetchPage s = _
  rw [fetchPage, h]
  cases answer <;> rfl

theorem retrying : Retrying fun s : ScanSource β => (s.request, s.cursor) where
  failed s u e h := by
    rcases hscan : ScanStore.scan s.store s.request s.cursor.startKey with ⟨_ | _, store⟩
    · rw [fetchPage_eq hscan] at h
      cases h
      rfl
    · rw [fetchPage_eq hscan] at h
      cases h
  refused s u key e h := by
    rcases s.setStart_cases key with hset | ⟨e', hset⟩
    · cases hset.symm.trans h
    · exact (Prod.mk.inj (hset.symm.trans h)).2.symm
  truthful := ScanSource.truthful

theorem fetchPage_logged (s : ScanSource (PageLog β)) :
    ∃ answer inner, ScanStore.scan s.store.inner s.request s.cursor.startKey = (answer, inner) ∧
      PageSource.fetchPage s = (fetched StartCursor.page answer,
        ⟨⟨inner, s.store.log ++ [((.scan s.request, s.cursor.startKey), answer)]⟩, s.request,
          s.cursor.after answer⟩) :=
  ⟨_, _, rfl, fetchPage_eq rfl⟩

theorem calling :
    Calling (fun s : ScanSource (PageLog β) => s.store.log)
      (fun s => (.scan s.request, s.cursor.startKey))
      (fun s output => (.scan s.request, output.lastKey)) StartCursor.page where
  step s := by
    obtain ⟨answer, inner, -, hfetch⟩ := fetchPage_logged s
    rw [hfetch]
    refine ⟨answer, rfl, rfl, ?_, rfl⟩
    cases answer <;> rfl

theorem firstOutcomes_logged (n : Nat) (s : ScanSource β) :
    firstOutcomes n s = firstOutcomes n s.logged := by
  refine (firstOutcomes_of_map unlogged (fun s => ?_) n s.logged).2
  obtain ⟨answer, inner, hscan, hfetch⟩ := fetchPage_logged s
  rw [hfetch]
  exact fetchPage_eq hscan

theorem setStart_of_ok {s u : ScanSource β} {key : ResumeKey}
    (h : PageSource.setStart s key = (.ok (), u)) :
    u = { s with cursor := { s.cursor with startKey := some key } } := by
  rcases s.setStart_cases key with hset | ⟨e, hset⟩
  · exact (Prod.mk.inj (hset.symm.trans h)).2.symm
  · cases hset.symm.trans h

theorem make_cases {store : β} {request : ScanRequest} {source : ScanSource β}
    (h : ScanSource.make store request = .ok source) :
    ∃ schema, Store.keySchema store request.table = .ok schema ∧
      source = ⟨store, request, .start schema⟩ := by
  rw [make] at h
  split at h
  · exact ⟨_, ‹_›, (Except.ok.inj h).symm⟩
  · cases h

/-- **Any run of a scan** after the start keys that it took. -/
theorem run {store : β} {request : ScanRequest} {source s : ScanSource β}
    {start : Option ResumeKey} (hmake : ScanSource.make store request = .ok source)
    (h : Configured source start s) (n : Nat) :
    LoggedRun n s (afterFetches n s.logged).store.log (.scan request, start)
      (fun output => (.scan request, output.lastKey)) StartCursor.page ∧
    (firstPages n s = [] → PageSource.hasMore (afterFetches n s) = true) := by
  obtain ⟨schema, -, rfl⟩ := make_cases hmake
  obtain ⟨rfl, hcursor⟩ : s.request = request ∧ s.cursor = _ :=
    h.begins (fun _ _ _ hset => by rw [setStart_of_ok hset]; exact ⟨rfl, rfl⟩) rfl
  obtain rfl : s.cursor.startKey = start := by rw [hcursor]
  exact ⟨(calling.afterFetches (s := s.logged) rfl n).1.of_outcomes (firstOutcomes_logged n s),
    retrying.hasMore_of_cursor (fun _ => rfl) (congrArg StartCursor.fetched hcursor)⟩

end ScanSource

/-! ## Explicit keys -/

namespace BatchSource

/-- The same source over a log of its store. -/
def logged (s : BatchSource β) : BatchSource (BatchLog β) := ⟨.fresh s.store, s.table, s.pending⟩

/-- The same source without the log. -/
def unlogged (s : BatchSource (BatchLog β)) : BatchSource β := ⟨s.store.inner, s.table, s.pending⟩

/-- The page of an answer. -/
def page (output : BatchOutput) : Page := ⟨output.items, .pending output.unprocessed⟩

/-- The keys that are pending after an answer; a failure leaves them. -/
def after (pending : List ResumeKey) : Except StoreError BatchOutput → List ResumeKey
  | .ok output => output.unprocessed
  | .error _ => pending

variable [BatchStore β]

theorem fetchPage_eq {s : BatchSource β} {answer : Except StoreError BatchOutput} {store : β}
    (h : BatchStore.batchGet s.store ⟨s.table, s.pending⟩ = (answer, store)) :
    PageSource.fetchPage s =
      (fetched page answer, { s with store, pending := after s.pending answer }) := by
  change fetchPage s = _
  rw [fetchPage, h]
  cases answer <;> rfl

theorem retrying : Retrying fun s : BatchSource β => (s.table, s.pending) where
  failed s u e h := by
    rcases hbatch : BatchStore.batchGet s.store ⟨s.table, s.pending⟩ with ⟨_ | _, store⟩
    · rw [fetchPage_eq hbatch] at h
      cases h
      rfl
    · rw [fetchPage_eq hbatch] at h
      cases h
  refused s u key e h := (Prod.mk.inj h).2.symm
  truthful := BatchSource.truthful

theorem fetchPage_logged (s : BatchSource (BatchLog β)) :
    ∃ answer inner, BatchStore.batchGet s.store.inner ⟨s.table, s.pending⟩ = (answer, inner) ∧
      PageSource.fetchPage s = (fetched page answer,
        ⟨⟨inner, s.store.log ++ [(⟨s.table, s.pending⟩, answer)]⟩, s.table,
          after s.pending answer⟩) :=
  ⟨_, _, rfl, fetchPage_eq rfl⟩

theorem calling :
    Calling (fun s : BatchSource (BatchLog β) => s.store.log) (fun s => ⟨s.table, s.pending⟩)
      (fun s output => ⟨s.table, output.unprocessed⟩) page where
  step s := by
    obtain ⟨answer, inner, -, hfetch⟩ := fetchPage_logged s
    rw [hfetch]
    refine ⟨answer, rfl, rfl, ?_, rfl⟩
    cases answer <;> rfl

theorem firstOutcomes_logged (n : Nat) (s : BatchSource β) :
    firstOutcomes n s = firstOutcomes n s.logged := by
  refine (firstOutcomes_of_map unlogged (fun s => ?_) n s.logged).2
  obtain ⟨answer, inner, hbatch, hfetch⟩ := fetchPage_logged s
  rw [hfetch]
  exact fetchPage_eq hbatch

/-- **Any run of a request for explicit keys**. -/
theorem run (store : β) (request : BatchRequest) (n : Nat) :
    LoggedRun n (make store request) (afterFetches n (make store request).logged).store.log request
      (fun output => ⟨request.table, output.unprocessed⟩) page ∧
    (firstPages n (make store request) = [] →
      PageSource.hasMore (afterFetches n (make store request)) = !request.keys.isEmpty) := by
  exact ⟨(calling.afterFetches (s := (make store request).logged) rfl n).1.of_outcomes
      (firstOutcomes_logged n _),
    retrying.hasMore fun a b hab => congrArg (fun own => !own.2.isEmpty) hab⟩

end BatchSource

/-! ## Every run -/

/-- **Sources follow their store**, however it answers. Each fetch is one call of it, with the last
start key, the last key of the latest answer, or the keys that this left unprocessed, and its
outcome is the answer made into a page. -/
theorem continuation_followed :
    (∀ (β : Type) [QueryStore β], Retrying (fun s : QuerySource β => (s.request, s.cursor)) ∧
      ∀ (store : β) (request : QueryRequest) (source s : QuerySource β) (start : Option ResumeKey),
        QuerySource.make store request = .ok source → Configured source start s → ∀ n,
          LoggedRun n s (afterFetches n s.logged).store.log (.query request, start)
            (fun output => (.query request, output.lastKey)) StartCursor.page ∧
          (firstPages n s = [] → PageSource.hasMore (afterFetches n s) = true)) ∧
    (∀ (β : Type) [ScanStore β], Retrying (fun s : ScanSource β => (s.request, s.cursor)) ∧
      ∀ (store : β) (request : ScanRequest) (source s : ScanSource β) (start : Option ResumeKey),
        ScanSource.make store request = .ok source → Configured source start s → ∀ n,
          LoggedRun n s (afterFetches n s.logged).store.log (.scan request, start)
            (fun output => (.scan request, output.lastKey)) StartCursor.page ∧
          (firstPages n s = [] → PageSource.hasMore (afterFetches n s) = true)) ∧
    ∀ (β : Type) [BatchStore β], Retrying (fun s : BatchSource β => (s.table, s.pending)) ∧
      ∀ (store : β) (request : BatchRequest) (n : Nat),
        let s := BatchSource.make store request
        LoggedRun n s (afterFetches n s.logged).store.log request
          (fun output => ⟨request.table, output.unprocessed⟩) BatchSource.page ∧
        (firstPages n s = [] → PageSource.hasMore (afterFetches n s) = !request.keys.isEmpty) :=
  ⟨fun _ => ⟨QuerySource.retrying, fun _ _ _ _ _ hmake h n => QuerySource.run hmake h n⟩,
    fun _ => ⟨ScanSource.retrying, fun _ _ _ _ _ hmake h n => ScanSource.run hmake h n⟩,
    fun _ => ⟨BatchSource.retrying, BatchSource.run⟩⟩

/-- A store that gives some answers one by one, whatever it is asked, and is unavailable then. -/
structure Replies where
  answers : List (Except StoreError PageOutput)

instance : QueryStore Replies where
  keySchema _ _ := .ok ⟨"id", none⟩
  query s _ _ := (s.answers.headD (.error (.unavailable "")), ⟨s.answers.tail⟩)

/-- The store fails, answers, fails and answers: the start key is sent twice, and then its last key
twice. -/
theorem continuation_followed_through_failures :
    let key (digits : String) : ResumeKey := ⟨.ofList [("id", .text "a"), ("n", .number digits)]⟩
    let failure : Except StoreError PageOutput := .error (.unavailable "throttled")
    let store : Replies :=
      ⟨[failure, .ok ⟨[], 1, some (key "2")⟩, failure, .ok ⟨[], 0, none⟩]⟩
    let request : QueryRequest := ⟨"t", .text "a", none, [], some 1, true⟩
    ∃ source s, QuerySource.make store request = .ok source ∧ Configured source (some (key "1")) s ∧
      LoggedRun 4 s (afterFetches 4 s.logged).store.log (.query request, some (key "1"))
        (fun output => (.query request, output.lastKey)) StartCursor.page ∧
      (afterFetches 4 s.logged).store.log.map (·.1.2) =
        [some (key "1"), some (key "1"), some (key "2"), some (key "2")] := by
  intro key failure store request
  let source : QuerySource Replies := ⟨store, request, .start ⟨"id", none⟩⟩
  have hconfigured : Configured source (some (key "1")) (source.setStart (key "1")).2 :=
    .set .fresh rfl
  have hrun := (continuation_followed.1 Replies).2 store request source _ _ rfl hconfigured 4
  exact ⟨source, _, rfl, hconfigured, hrun.1, by decide +kernel⟩

end CursorPaging
