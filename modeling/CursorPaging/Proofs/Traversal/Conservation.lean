import CursorPaging.Proofs.Traversal.Calls

/-!
# Conservation of records

Whatever a source does and in whichever order a walk over it is asked, no record is lost, repeated
or moved: what was handed out and what is buffered are the records of the pages that were fetched.

* `Watched`: a source along with the outcomes of its fetches; `Script`: a source that plays given
  outcomes; `Keyed`: one that tells given key layouts;
* **`Conserved`**: how the records handed out, the pages fetched and a walk belong together;
* `conserved_look`, `conserved_take`, `conserved_calls`: looks, records handed out and whole
  sequences of calls keep it;
* **`calls_conserve`**: it holds after every sequence of calls.
-/

namespace CursorPaging

/-- A source and the outcomes of the fetches from it, in their order. -/
structure Watched (σ : Type) where
  inner : σ
  outcomes : List (Except PagingError Page)

namespace Watched

variable {σ : Type}

/-- A source that nothing was fetched from. -/
def fromStart (source : σ) : Watched σ := ⟨source, []⟩

/-- The pages that were fetched. -/
def pages (s : Watched σ) : List Page := s.outcomes.filterMap Except.toOption

instance [PageSource σ] : PageSource (Watched σ) where
  kind s := PageSource.kind s.inner
  fetchPage s :=
    let (outcome, inner) := PageSource.fetchPage s.inner
    (outcome, ⟨inner, s.outcomes ++ [outcome]⟩)
  hasMore s := PageSource.hasMore s.inner
  keySchema s := PageSource.keySchema s.inner
  setStart s key :=
    let (result, inner) := PageSource.setStart s.inner key
    (result, { s with inner })
  lastKey s := PageSource.lastKey s.inner
  keyFields s := PageSource.keyFields s.inner
  hashKeyField s := PageSource.hashKeyField s.inner
  isHashKeyField s := PageSource.isHashKeyField s.inner

theorem sourceMap_inner [PageSource σ] : Traversal.SourceMap (Watched.inner : Watched σ → σ) :=
  ⟨fun _ => rfl, fun _ => rfl, fun _ => rfl, fun _ => rfl⟩

variable [PageSource σ] {s u : Watched σ}

theorem outcomes_of_fetch {outcome : Except PagingError Page}
    (h : PageSource.fetchPage s = (outcome, u)) : u.outcomes = s.outcomes ++ [outcome] := by
  obtain ⟨houtcome, rfl⟩ := Prod.mk.inj h
  simp [houtcome]

theorem pages_of_page {page : Page} (h : PageSource.fetchPage s = (.ok page, u)) :
    u.pages = s.pages ++ [page] := by
  simp [pages, outcomes_of_fetch h, Except.toOption]

theorem pages_of_failure {e : PagingError} (h : PageSource.fetchPage s = (.error e, u)) :
    u.pages = s.pages := by
  simp [pages, outcomes_of_fetch h, Except.toOption]

end Watched

/-- A source that plays outcomes one after the other, whatever they are. -/
structure Script where
  outcomes : List (Except PagingError Page)
  kind : SourceKind

namespace Script

def fetchPage : Script → Except PagingError Page × Script
  | ⟨[], kind⟩ => (.ok .empty, ⟨[], kind⟩)
  | ⟨outcome :: rest, kind⟩ => (outcome, ⟨rest, kind⟩)

instance : PageSource Script where
  kind := kind
  fetchPage := fetchPage
  hasMore s := !s.outcomes.isEmpty
  keySchema s := .error (.unsupported s.kind .keySchema)
  setStart s _ := (.error (.unsupported s.kind .setExclusiveStartKey), s)
  lastKey s := .error (.unsupported s.kind .lastEvaluatedKey)

end Script

/-- A source with key layouts of its own, of which every fetch but the last uses one up. -/
structure Keyed (σ : Type) where
  inner : σ
  schemas : List KeySchema

namespace Keyed

variable {σ : Type} [PageSource σ]

def keySchema (s : Keyed σ) : Except PagingError KeySchema :=
  match s.schemas with
  | [] => PageSource.keySchema s.inner
  | schema :: _ => .ok schema

def fetchPage (s : Keyed σ) : Except PagingError Page × Keyed σ :=
  let (outcome, inner) := PageSource.fetchPage s.inner
  match s.schemas with
  | _ :: schema :: rest => (outcome, ⟨inner, schema :: rest⟩)
  | schemas => (outcome, ⟨inner, schemas⟩)

instance : PageSource (Keyed σ) where
  kind s := PageSource.kind s.inner
  fetchPage := fetchPage
  hasMore s := PageSource.hasMore s.inner
  keySchema := keySchema
  setStart s key :=
    let (result, inner) := PageSource.setStart s.inner key
    (result, { s with inner })
  lastKey s := PageSource.lastKey s.inner

end Keyed

namespace Traversal

variable {σ τ α β : Type}

/-- The records that a walk with some limit handed out, the pages that it fetched, and the walk as
it is then. -/
structure Conserved (limit : Limit) (taken : List Record) (fetched : List Page)
    (t : Traversal σ α) : Prop where
  /-- What was handed out, then the buffer, are the records of the pages. -/
  records : taken ++ t.buffer = fetched.flatMap (·.records)
  pages : t.pages = fetched.length
  lastExamined : t.lastExamined = taken.getLast?
  unbounded : limit = .unbounded → t.limit = .unbounded
  /-- A limit is an upper bound, and what is left of it is what was not handed out. -/
  bounded : ∀ n, Limit.atMost n = .ok limit →
    taken.length ≤ n ∧ t.limit = ⟨some n, some (n - taken.length)⟩

variable {limit : Limit} {taken : List Record} {fetched : List Page}

theorem Conserved.view {t : Traversal σ α} (h : Conserved limit taken fetched t) (f : σ → τ)
    (m : α → Except PagingError β) : Conserved limit taken fetched (t.view f m) :=
  ⟨h.records, h.pages, h.lastExamined, h.unbounded, h.bounded⟩

theorem conserved_start (source : σ) (limit : Limit) (codec : PositionCodec)
    (m : Record → Except PagingError α) : Conserved limit [] [] (start source limit codec m) where
  records := rfl
  pages := rfl
  lastExamined := rfl
  unbounded h := h
  bounded n h := by
    refine ⟨Nat.zero_le n, ?_⟩
    unfold Limit.atMost at h
    split_ifs at h
    cases h
    rfl

/-! ## Looks and records handed out -/

theorem conserved_take {t : Traversal σ α} {record : Record} {rest : List Record}
    (hbuffer : t.buffer = record :: rest) (hopen : t.limit.isReached = false)
    (h : Conserved limit taken fetched t) :
    Conserved limit (taken ++ [record]) fetched (t.take record rest) where
  records := by
    rw [← h.records, hbuffer, List.append_assoc]
    rfl
  pages := h.pages
  lastExamined := by
    rw [List.getLast?_append]
    rfl
  unbounded hlimit := by
    have hlimit' : t.limit = .unbounded := h.unbounded hlimit
    simp only [take, hlimit']
    rfl
  bounded n hn := by
    obtain ⟨hle, hlimit⟩ := h.bounded n hn
    have hleft : n - taken.length ≠ 0 := by
      rintro hzero
      rw [hlimit, hzero] at hopen
      simp [Limit.isReached] at hopen
    have hconsume : t.limit.consume = ⟨some n, some (n - taken.length - 1)⟩ := by
      rw [hlimit]
      rfl
    refine ⟨by rw [List.length_append, List.length_singleton]; omega, ?_⟩
    simp only [take, hconsume, List.length_append, List.length_singleton, Nat.sub_sub]

variable [PageSource σ]

theorem conserved_look {t u : Traversal (Watched σ) α} (hlook : Look t u)
    (h : Conserved limit taken t.source.pages t) : Conserved limit taken u.source.pages u := by
  cases hlook with
  | phase phase => exact ⟨h.records, h.pages, h.lastExamined, h.unbounded, h.bounded⟩
  | page more fetch =>
    have hpages := Watched.pages_of_page fetch
    refine ⟨?_, ?_, h.lastExamined, h.unbounded, h.bounded⟩
    · simp only [hpages, List.flatMap_append, List.flatMap_singleton, ← h.records,
        List.append_assoc]
    · simp only [hpages, List.length_append, List.length_singleton, h.pages]
  | failure more fetch =>
    have hpages := Watched.pages_of_failure fetch
    refine ⟨?_, ?_, h.lastExamined, h.unbounded, h.bounded⟩
    · simp only [hpages, h.records]
    · simp only [hpages, h.pages]

/-! ## Sequences of calls -/

theorem conserved_looks {t u : Traversal (Watched σ) α} (hlooks : Looks t u)
    (h : Conserved limit taken t.source.pages t) : Conserved limit taken u.source.pages u :=
  hlooks.keeps (P := fun v => Conserved limit taken v.source.pages v) conserved_look h

/-- A call on a walk whose results are the records themselves hands out its results. -/
theorem conserved_call {t u : Traversal (Watched σ) Record} {fuel : Nat} {c : Call}
    {a : Answer Record} (hm : t.materialize = .ok) (hcall : t.call fuel c = some (a, u))
    (h : Conserved limit taken t.source.pages t) :
    Conserved limit (taken ++ a.results) u.source.pages u ∧ u.materialize = .ok := by
  rcases call_cases hcall with ⟨hlooks, hnone⟩ |
    ⟨record, ⟨v, rest, hlooks, hbuffer, hopen, rfl⟩, hone⟩
  · rw [hnone, List.append_nil]
    exact ⟨conserved_looks hlooks h, hlooks.materialize.trans hm⟩
  · rw [hone, hm]
    exact ⟨conserved_take hbuffer hopen (conserved_looks hlooks h), hlooks.materialize.trans hm⟩

theorem conserved_calls {fuel : Nat} : ∀ {cs : List Call} {taken : List Record}
    {t u : Traversal (Watched σ) Record} {answers : List (Answer Record)},
    t.materialize = .ok → calls fuel cs t = some (answers, u) →
      Conserved limit taken t.source.pages t →
      Conserved limit (taken ++ answers.flatMap Answer.results) u.source.pages u
  | [], taken, t, u, answers, _, hcalls, h => by
    cases hcalls
    rw [List.flatMap_nil, List.append_nil]
    exact h
  | c :: rest, taken, t, u, answers, hm, hcalls, h => by
    obtain ⟨a, v, later, hcall, hrest, rfl⟩ := calls_cons hcalls
    obtain ⟨hv, hmv⟩ := conserved_call hm hcall h
    rw [List.flatMap_cons, ← List.append_assoc]
    exact conserved_calls hmv hrest hv

/-- **Conservation.** Calls on any walk come back as they do with the records themselves as results;
every result is made out of the record handed out in its place, and records and limit are accounted
for. -/
theorem calls_conserve (source : σ) (limit : Limit) (codec : PositionCodec)
    (m : Record → Except PagingError α) (fuel : Nat) (cs : List Call)
    {answers : List (Answer α)} {t : Traversal σ α}
    (h : calls fuel cs (start source limit codec m) = some (answers, t)) :
    ∃ (raw : List (Answer Record)) (u : Traversal (Watched σ) Record),
      calls fuel cs (start (.fromStart source) limit codec .ok) = some (raw, u) ∧
      answers = raw.map (·.bind m) ∧ t = u.view Watched.inner m ∧
      Conserved limit (raw.flatMap Answer.results) u.source.pages t := by
  have hview : start source limit codec m =
      (start (Watched.fromStart source) limit codec .ok).view Watched.inner m := rfl
  rw [hview, calls_view Watched.sourceMap_inner] at h
  obtain ⟨⟨raw, u⟩, hraw, heq⟩ := Option.map_eq_some_iff.1 h
  cases heq
  refine ⟨raw, u, hraw, rfl, rfl, ?_⟩
  exact (conserved_calls rfl hraw (conserved_start _ limit codec .ok)).view _ _

/-- A look past the limit has fetched a third record. The second makes no result. -/
theorem calls_conserve_past_limit :
    let record (name : String) : Record := ⟨⟨[("name", .text name)], List.pairwise_singleton _ _⟩⟩
    let script : Script := ⟨[.ok ⟨[], .pending [default]⟩, .ok ⟨[record "a", default], .done⟩,
      .ok ⟨[record "c"], .done⟩, .error .noLimit], .scan⟩
    let cs : List Call := [.ask .hasNext, .ask .next, .position false, .ask .nextItem,
      .ask .hasResultsPastLimit, .ask .nextItem]
    let m (r : Record) : Except PagingError Record :=
      if r.fields.isEmpty then .error (.materialize "empty") else .ok r
    ∃ answers t, calls 4 cs (start script ⟨some 2, some 2⟩ .default m) = some (answers, t) ∧
      t.buffer = [record "c"] ∧
      ∃ (raw : List (Answer Record)) (u : Traversal (Watched Script) Record),
        calls 4 cs (start (.fromStart script) ⟨some 2, some 2⟩ .default .ok) = some (raw, u) ∧
        answers = raw.map (·.bind m) ∧ t = u.view Watched.inner m ∧
        Conserved ⟨some 2, some 2⟩ (raw.flatMap Answer.results) u.source.pages t := by
  intro record script cs m
  have hbuffer : (calls 4 cs (start script ⟨some 2, some 2⟩ .default m)).map (·.2.buffer) =
      some [record "c"] := by decide +kernel
  obtain ⟨⟨answers, t⟩, hrun, ht⟩ := Option.map_eq_some_iff.1 hbuffer
  exact ⟨answers, t, hrun, ht, calls_conserve _ _ _ _ 4 _ hrun⟩

end Traversal

end CursorPaging
