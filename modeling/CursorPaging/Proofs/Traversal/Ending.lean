import CursorPaging.Proofs.Traversal.Phases

/-!
# Exhausted walks

An exhausted walk has nothing buffered, and either the source has no more or its last page was empty
and pointed nowhere. Over a source that goes by the continuations of its pages both are one, and
nothing is left.

* `Truthful`: such a source; `QuerySource.truthful`, `ScanSource.truthful`, `BatchSource.truthful`;
* `AfterLast`, `Drained`: what a look that finds nothing leaves; `Fetches.drained`,
  `LooksAhead.drained`;
* **`Leaves.exhausted`**: a call that leaves a walk exhausted;
* `Spent`, `lookAhead_of_spent`: nothing is left; `Ended`, **`ask_ended`**: every call keeps it that
  nothing is left of an exhausted walk.
-/

namespace CursorPaging

/-- Whether a source has more after a fetch is what the continuation of the page says. -/
def Truthful (σ : Type) [PageSource σ] : Prop :=
  ∀ (s u : σ) (page : Page), PageSource.fetchPage s = (.ok page, u) →
    PageSource.hasMore u = page.continuation.isMore

/-! ## Sources over stores -/

theorem StartCursor.hasMore_advance (cursor : StartCursor) (output : PageOutput) :
    (cursor.advance output).hasMore = (StartCursor.page output).continuation.isMore := by
  rw [StartCursor.hasMore, StartCursor.advance, StartCursor.page]
  cases output.lastKey <;> rfl

theorem QuerySource.truthful {β : Type} [QueryStore β] : Truthful (QuerySource β) := by
  intro s u page h
  change QuerySource.fetchPage s = _ at h
  change u.cursor.hasMore = _
  unfold QuerySource.fetchPage at h
  split at h
  · cases h
    exact StartCursor.hasMore_advance _ _
  · cases h

theorem ScanSource.truthful {β : Type} [ScanStore β] : Truthful (ScanSource β) := by
  intro s u page h
  change ScanSource.fetchPage s = _ at h
  change u.cursor.hasMore = _
  unfold ScanSource.fetchPage at h
  split at h
  · cases h
    exact StartCursor.hasMore_advance _ _
  · cases h

theorem BatchSource.truthful {β : Type} [BatchStore β] : Truthful (BatchSource β) := by
  intro s u page h
  change BatchSource.fetchPage s = _ at h
  unfold BatchSource.fetchPage at h
  split at h
  · cases h
    rfl
  · cases h

/-! ## Walks -/

/-- A source from which a page was fetched that has no records and points nowhere. -/
def AfterLast {σ : Type} [PageSource σ] (s : σ) : Prop :=
  ∃ before page, PageSource.fetchPage before = (.ok page, s) ∧ page.records = [] ∧
    page.continuation.isMore = false

namespace Traversal

variable {σ α : Type} [PageSource σ] {fuel : Nat} {t u : Traversal σ α} {ask : Ask}
  {answer : Answer α}

/-- Nothing is left as far as the walk can tell: by what the source says or by its last page. -/
structure Drained (t : Traversal σ α) : Prop where
  buffer : t.buffer = []
  source : PageSource.hasMore t.source = false ∨ AfterLast t.source

theorem Fetches.drained {r : Except PagingError Bool} (h : Fetches fuel t r u)
    (hbuffer : t.buffer = []) (hr : r = .ok false) : u.Drained := by
  induction h with
  | dry more => exact ⟨hbuffer, .inl more⟩
  | failure => cases hr
  | found => cases hr
  | last more fetch records done => exact ⟨hbuffer, .inr ⟨_, _, fetch, records, done⟩⟩
  | skip more fetch records continues rest ih => exact ih hbuffer hr

theorem LooksAhead.drained (h : LooksAhead fuel t (.ok false) u) : u.Drained := by
  cases h with
  | past buffer phase fetches => exact fetches.drained buffer rfl
  | ahead buffer phase fetches => exact fetches.drained buffer rfl

/-- **A call that leaves a walk exhausted** found it so, or found nothing within its limit. -/
theorem Leaves.exhausted (h : Leaves fuel t ask answer u) (hphase : u.phase = .exhausted) :
    u = t ∨ u.Drained ∧ u.limit.isReached = false := by
  cases h with
  | same => exact .inl rfl
  | reached => cases hphase
  | failed phase alive look =>
    rw [look.phase_of_error] at hphase
    cases hphase
  | nothing answer alive limit look =>
    exact .inr ⟨⟨look.drained.buffer, look.drained.source⟩, look.limit ▸ limit⟩
  | found => cases hphase
  | taken =>
    simp only [take] at hphase
    split_ifs at hphase
  | past answer alive limit look =>
    rw [look.phase_past rfl] at hphase
    cases hphase

/-- Nothing is left. -/
structure Spent (t : Traversal σ α) : Prop where
  buffer : t.buffer = []
  source : PageSource.hasMore t.source = false

theorem Drained.spent (hlaw : Truthful σ) (h : t.Drained) : t.Spent where
  buffer := h.buffer
  source := by
    obtain hmore | ⟨before, page, hfetch, -, hdone⟩ := h.source
    · exact hmore
    · exact (hlaw _ _ _ hfetch).trans hdone

theorem fetchRecords_of_dry (h : PageSource.hasMore t.source = false) :
    fetchRecords fuel t = some (.ok false, t) := by
  unfold fetchRecords
  rw [h]
  rfl

theorem lookAhead_of_spent (h : t.Spent) :
    t.lookAhead fuel = some (.ok false, t.mark t.limit (lookPhase t.phase)) :=
  (lookAhead_of_nil h.buffer).trans (fetchRecords_of_dry h.source)

/-- If the walk is exhausted, nothing is left. -/
def Ended (t : Traversal σ α) : Prop := t.phase = .exhausted → t.Spent

theorem ended_of_ne (h : t.phase ≠ .exhausted) : t.Ended := fun hphase => absurd hphase h

/-- **Every call keeps it** that an exhausted walk has nothing left. -/
theorem ask_ended (hlaw : Truthful σ) (ht : t.Ended) (h : t.ask fuel ask = some (answer, u)) :
    u.Ended := by
  intro hphase
  obtain rfl | ⟨hdrained, -⟩ := (leaves_of_eq h).exhausted hphase
  · exact ht hphase
  · exact hdrained.spent hlaw

end Traversal

end CursorPaging
