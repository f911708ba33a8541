import Mathlib.Tactic.SplitIfs
import CursorPaging.Traversal

/-!
# How calls come back

Each call as a relation between a walk, the answer and the walk after it, with one case for each way
in which it comes back.

* `Fetches`: the fetches until there are records; `LooksAhead`;
* `HasNext`, `NextItem`, `Next`, `PastLimit`: the calls;
* **`fetches_of_eq`**, **`hasNext_of_eq`**, **`nextItem_of_eq`**, **`next_of_eq`**,
  **`pastLimit_of_eq`**: a call comes back in one of these ways.
-/

namespace CursorPaging

namespace Traversal

variable {σ α : Type} [PageSource σ]

/-! ## Ways to come back -/

/-- Pages are fetched until one has records, or is the last, or a fetch fails. -/
inductive Fetches : Nat → Traversal σ α → Except PagingError Bool → Traversal σ α → Prop
  | dry {fuel : Nat} {t : Traversal σ α} (more : PageSource.hasMore t.source = false) :
      Fetches fuel t (.ok false) t
  | failure {fuel : Nat} {t : Traversal σ α} {e : PagingError} {source : σ}
      (more : PageSource.hasMore t.source = true)
      (fetch : PageSource.fetchPage t.source = (.error e, source)) :
      Fetches (fuel + 1) t (.error e) { t with source, phase := .failed }
  | found {fuel : Nat} {t : Traversal σ α} {page : Page} {source : σ}
      (more : PageSource.hasMore t.source = true)
      (fetch : PageSource.fetchPage t.source = (.ok page, source)) (records : page.records ≠ []) :
      Fetches (fuel + 1) t (.ok true)
        { t with source, pages := t.pages + 1, buffer := t.buffer ++ page.records }
  | last {fuel : Nat} {t : Traversal σ α} {page : Page} {source : σ}
      (more : PageSource.hasMore t.source = true)
      (fetch : PageSource.fetchPage t.source = (.ok page, source)) (records : page.records = [])
      (done : page.continuation.isMore = false) :
      Fetches (fuel + 1) t (.ok false) { t with source, pages := t.pages + 1 }
  | skip {fuel : Nat} {t u : Traversal σ α} {page : Page} {source : σ}
      {r : Except PagingError Bool} (more : PageSource.hasMore t.source = true)
      (fetch : PageSource.fetchPage t.source = (.ok page, source)) (records : page.records = [])
      (continues : page.continuation.isMore = true)
      (rest : Fetches fuel { t with source, pages := t.pages + 1 } r u) :
      Fetches (fuel + 1) t r u

/-- A look ahead fetches only if the buffer is empty. -/
inductive LooksAhead (fuel : Nat) (t : Traversal σ α) :
    Except PagingError Bool → Traversal σ α → Prop
  | buffered (buffer : t.buffer ≠ []) : LooksAhead fuel t (.ok true) t
  | past {r : Except PagingError Bool} {u : Traversal σ α} (buffer : t.buffer = [])
      (phase : t.phase = .limitReached) (fetches : Fetches fuel t r u) : LooksAhead fuel t r u
  | ahead {r : Except PagingError Bool} {u : Traversal σ α} (buffer : t.buffer = [])
      (phase : t.phase ≠ .limitReached)
      (fetches : Fetches fuel { t with phase := .lookingAhead } r u) : LooksAhead fuel t r u

inductive HasNext (fuel : Nat) (t : Traversal σ α) :
    Except PagingError Bool → Traversal σ α → Prop
  | failed (phase : t.phase = .failed) : HasNext fuel t (.error (.misuse .alreadyFailed)) t
  | reached (alive : t.phase ≠ .failed) (limit : t.limit.isReached = true) :
      HasNext fuel t (.ok false) { t with phase := .limitReached }
  | failure {e : PagingError} {u : Traversal σ α} (alive : t.phase ≠ .failed)
      (limit : t.limit.isReached = false) (look : LooksAhead fuel t (.error e) u) :
      HasNext fuel t (.error e) u
  | nothing {u : Traversal σ α} (alive : t.phase ≠ .failed) (limit : t.limit.isReached = false)
      (look : LooksAhead fuel t (.ok false) u) :
      HasNext fuel t (.ok false) { u with phase := .exhausted }
  | found {u : Traversal σ α} (alive : t.phase ≠ .failed) (limit : t.limit.isReached = false)
      (look : LooksAhead fuel t (.ok true) u) :
      HasNext fuel t (.ok true) { u with phase := .buffering }

inductive NextItem (fuel : Nat) (t : Traversal σ α) : Except PagingError α → Traversal σ α → Prop
  | reached (limit : t.limit.isReached = true) :
      NextItem fuel t (.error (.limitReached (t.limit.requested.getD 0))) t
  | failure {e : PagingError} {u : Traversal σ α} (limit : t.limit.isReached = false)
      (next : HasNext fuel t (.error e) u) : NextItem fuel t (.error e) u
  | nothing {u : Traversal σ α} (limit : t.limit.isReached = false)
      (next : HasNext fuel t (.ok false) u) : NextItem fuel t (.error (.misuse .nothingLeft)) u
  | taken {u : Traversal σ α} {record : Record} {rest : List Record}
      (next : HasNext fuel t (.ok true) u) (buffer : u.buffer = record :: rest) :
      NextItem fuel t (u.materialize record) (u.take record rest)

inductive Next (fuel : Nat) (t : Traversal σ α) :
    Option (Except PagingError α) → Traversal σ α → Prop
  | failed (phase : t.phase = .failed) : Next fuel t none t
  | failure {e : PagingError} {u : Traversal σ α} (alive : t.phase ≠ .failed)
      (next : HasNext fuel t (.error e) u) : Next fuel t (some (.error e)) u
  | nothing {u : Traversal σ α} (next : HasNext fuel t (.ok false) u) : Next fuel t none u
  | taken {u : Traversal σ α} {record : Record} {rest : List Record}
      (next : HasNext fuel t (.ok true) u) (buffer : u.buffer = record :: rest) :
      Next fuel t (some (u.materialize record)) (u.take record rest)

inductive PastLimit (fuel : Nat) (t : Traversal σ α) :
    Except PagingError Bool → Traversal σ α → Prop
  | unbounded (bounded : t.limit.isBounded = false) : PastLimit fuel t (.error .noLimit) t
  | within {r : Except PagingError Bool} {u : Traversal σ α} (bounded : t.limit.isBounded = true)
      (limit : t.limit.isReached = false) (next : HasNext fuel t r u) : PastLimit fuel t r u
  | failed (bounded : t.limit.isBounded = true) (limit : t.limit.isReached = true)
      (phase : t.phase = .failed) : PastLimit fuel t (.error (.misuse .alreadyFailed)) t
  | past {r : Except PagingError Bool} {u : Traversal σ α} (bounded : t.limit.isBounded = true)
      (limit : t.limit.isReached = true) (alive : t.phase ≠ .failed)
      (look : LooksAhead fuel { t with phase := .limitReached } r u) : PastLimit fuel t r u

/-! ## Every call comes back in one of them -/

variable {fuel : Nat} {t u : Traversal σ α}

theorem fetches_of_eq : ∀ {fuel : Nat} {t u : Traversal σ α} {r : Except PagingError Bool},
    fetchRecords fuel t = some (r, u) → Fetches fuel t r u
  | fuel, t, u, r, h => by
    unfold fetchRecords at h
    split_ifs at h with hmore
    · cases fuel with
      | zero => cases h
      | succ fuel =>
        rcases hfetch : PageSource.fetchPage t.source with ⟨e | page, source⟩
        · simp only [hfetch] at h
          cases h
          exact .failure hmore hfetch
        · simp only [hfetch] at h
          split_ifs at h with hrecords hcontinues
          · cases h
            exact .found hmore hfetch (by simpa using hrecords)
          · exact .skip hmore hfetch (by simpa using hrecords) hcontinues (fetches_of_eq h)
          · cases h
            exact .last hmore hfetch (by simpa using hrecords) (Bool.eq_false_iff.2 hcontinues)
    · cases h
      exact .dry (Bool.eq_false_iff.2 hmore)

theorem looksAhead_of_eq {r : Except PagingError Bool} (h : t.lookAhead fuel = some (r, u)) :
    LooksAhead fuel t r u := by
  unfold lookAhead at h
  split_ifs at h with hbuffer hphase
  · cases h
    exact .buffered (by simpa using hbuffer)
  · exact .past (by simpa using hbuffer) hphase (fetches_of_eq h)
  · exact .ahead (by simpa using hbuffer) hphase (fetches_of_eq h)

theorem hasNext_of_eq {r : Except PagingError Bool} (h : t.hasNext fuel = some (r, u)) :
    HasNext fuel t r u := by
  unfold hasNext at h
  split_ifs at h with hphase hlimit
  · cases h
    exact .failed hphase
  · cases h
    exact .reached hphase hlimit
  · have hopen : t.limit.isReached = false := Bool.eq_false_iff.2 hlimit
    rcases hlook : t.lookAhead fuel with _ | ⟨e | _ | _, v⟩
    · simp only [hlook] at h
      cases h
    · simp only [hlook] at h
      cases h
      exact .failure hphase hopen (looksAhead_of_eq hlook)
    · simp only [hlook] at h
      cases h
      exact .nothing hphase hopen (looksAhead_of_eq hlook)
    · simp only [hlook] at h
      cases h
      exact .found hphase hopen (looksAhead_of_eq hlook)

theorem Fetches.limit {r : Except PagingError Bool} (h : Fetches fuel t r u) :
    u.limit = t.limit := by
  induction h with
  | skip more fetch records continues rest ih => exact ih
  | _ => rfl

theorem Fetches.buffer_ne_nil {r : Except PagingError Bool} (h : Fetches fuel t r u)
    (hr : r = .ok true) : u.buffer ≠ [] := by
  induction h with
  | found more fetch records => simp [records]
  | skip more fetch records continues rest ih => exact ih hr
  | _ => cases hr

theorem LooksAhead.limit {r : Except PagingError Bool} (h : LooksAhead fuel t r u) :
    u.limit = t.limit := by
  cases h with
  | buffered => rfl
  | past buffer phase fetches => exact fetches.limit
  | ahead buffer phase fetches => exact fetches.limit

theorem HasNext.promised (h : HasNext fuel t (.ok true) u) :
    u.phase = .buffering ∧ u.limit.isReached = false ∧
      ∃ record rest, u.buffer = record :: rest := by
  cases h with
  | found alive limit look =>
    refine ⟨rfl, look.limit ▸ limit, List.exists_cons_of_ne_nil ?_⟩
    cases look with
    | buffered buffer => exact buffer
    | past buffer phase fetches => exact fetches.buffer_ne_nil rfl
    | ahead buffer phase fetches => exact fetches.buffer_ne_nil rfl

theorem nextItem_of_eq {r : Except PagingError α} (h : t.nextItem fuel = some (r, u)) :
    NextItem fuel t r u := by
  unfold nextItem at h
  split_ifs at h with hlimit
  · cases h
    exact .reached hlimit
  · have hopen : t.limit.isReached = false := Bool.eq_false_iff.2 hlimit
    rcases hnext : t.hasNext fuel with _ | ⟨e | _ | _, v⟩
    · simp only [hnext] at h
      cases h
    · simp only [hnext] at h
      cases h
      exact .failure hopen (hasNext_of_eq hnext)
    · simp only [hnext] at h
      cases h
      exact .nothing hopen (hasNext_of_eq hnext)
    · obtain ⟨-, -, record, rest, hbuffer⟩ := (hasNext_of_eq hnext).promised
      simp only [hnext, hbuffer] at h
      cases h
      exact .taken (hasNext_of_eq hnext) hbuffer

theorem nextItem_of_promised {record : Record} {rest : List Record} (hphase : t.phase = .buffering)
    (hlimit : t.limit.isReached = false) (hbuffer : t.buffer = record :: rest) :
    t.nextItem fuel = some (t.materialize record, t.take record rest) := by
  have hsame : { t with phase := .buffering } = t := by rw [← hphase]
  have hlook : t.lookAhead fuel = some (.ok true, t) := by rw [lookAhead, hbuffer]; rfl
  have hnext : t.hasNext fuel = some (.ok true, t) := by
    simp only [hasNext, hphase, hlimit, hlook, hsame]
    rfl
  simp only [nextItem, hlimit, hnext, hbuffer]
  rfl

theorem next_of_eq {r : Option (Except PagingError α)} (h : t.next fuel = some (r, u)) :
    Next fuel t r u := by
  unfold next at h
  split_ifs at h with hphase
  · cases h
    exact .failed hphase
  · rcases hnext : t.hasNext fuel with _ | ⟨e | _ | _, v⟩
    · simp only [hnext] at h
      cases h
    · simp only [hnext] at h
      cases h
      exact .failure hphase (hasNext_of_eq hnext)
    · simp only [hnext] at h
      cases h
      exact .nothing (hasNext_of_eq hnext)
    · obtain ⟨hbuffering, hlimit, record, rest, hbuffer⟩ := (hasNext_of_eq hnext).promised
      simp only [hnext, nextItem_of_promised hbuffering hlimit hbuffer] at h
      cases h
      exact .taken (hasNext_of_eq hnext) hbuffer

theorem pastLimit_of_eq {r : Except PagingError Bool}
    (h : t.hasResultsPastLimit fuel = some (r, u)) : PastLimit fuel t r u := by
  unfold hasResultsPastLimit at h
  split_ifs at h with hbounded hlimit hphase
  · cases h
    exact .unbounded (by simpa using hbounded)
  · exact .within (by simpa using hbounded) (by simpa using hlimit) (hasNext_of_eq h)
  · cases h
    exact .failed (by simpa using hbounded) (by simpa using hlimit) hphase
  · exact .past (by simpa using hbounded) (by simpa using hlimit) hphase (looksAhead_of_eq h)

end Traversal

end CursorPaging
