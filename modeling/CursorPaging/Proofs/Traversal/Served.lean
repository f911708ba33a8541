import CursorPaging.Proofs.Traversal.Drain

/-!
# Walks to the end of a source

A source that gives some pages and then has no more, or fails, and the walk without a limit that
asks for all of it: what it hands out, how many pages it fetched, and how it leaves the source.

* `Serves`: such a source, its pages, its failure, and the source at the end; `Serves.plays`: the
  outcomes that it plays;
* `Delivers`, `Stopped`, `Tells`: what a walk will still hand out, where it ends, and what a look
  tells;
* `lookAhead_tells`, `next_of_delivers`, `next_at_end`: one look, and the ways of one call;
* **`collect_of_serves`**: all results, and the walk after them.
-/

namespace CursorPaging

/-- A source that gives some pages, each of which tells whether there is more after it, and then has
no more or fails, and the source at the end. -/
inductive Serves {σ : Type} [PageSource σ] : σ → List Page → Option PagingError → σ → Prop
  | dry {s : σ} (more : PageSource.hasMore s = false) : Serves s [] none s
  | failure {s u : σ} {e : PagingError} (more : PageSource.hasMore s = true)
      (fetch : PageSource.fetchPage s = (.error e, u)) : Serves s [] (some e) u
  | page {s v u : σ} {page : Page} {pages : List Page} {failure : Option PagingError}
      (more : PageSource.hasMore s = true) (fetch : PageSource.fetchPage s = (.ok page, v))
      (continues : PageSource.hasMore v = page.continuation.isMore)
      (rest : Serves v pages failure u) : Serves s (page :: pages) failure u

section Sources

variable {σ : Type} [PageSource σ] {s u : σ} {pages : List Page} {failure : Option PagingError}

theorem Serves.of_dry (h : Serves s pages failure u) (more : PageSource.hasMore s = false) :
    pages = [] ∧ failure = none ∧ u = s := by
  cases h with
  | dry => exact ⟨rfl, rfl, rfl⟩
  | failure more' => rw [more] at more'; cases more'
  | page more' => rw [more] at more'; cases more'

theorem Serves.plays (h : Serves s pages failure u) (hnone : failure = none) :
    Plays s (pages.map .ok) ∧
      effective (pages.map .ok) = (pages.flatMap (·.records), none) := by
  induction h with
  | dry more => exact ⟨.done more, rfl⟩
  | failure => cases hnone
  | @page s v u page pages failure more fetch continues rest ih =>
    obtain ⟨hplays, heffective⟩ := ih hnone
    refine ⟨.next more fetch hplays, ?_⟩
    rw [List.map_cons, effective, heffective]
    split_ifs with hlast
    · -- a source that has no more hands out nothing
      rw [Bool.and_eq_true, List.isEmpty_iff, Bool.not_eq_true'] at hlast
      obtain ⟨hrecords, hdone⟩ := hlast
      obtain ⟨rfl, -, -⟩ := rest.of_dry (continues.trans hdone)
      rw [List.flatMap_singleton, hrecords]
    · rfl

end Sources

namespace Traversal

variable {σ α : Type} [PageSource σ] {fuel total : Nat} {t u : Traversal σ α}
  {records : List Record} {failure : Option PagingError} {final : σ}

/-- A walk that will still hand out some records and end with or without a failure, and needs no
more than `fuel` fetches for it, and its source and the number of its pages at the end. -/
def Delivers (fuel : Nat) (t : Traversal σ α) (records : List Record)
    (failure : Option PagingError) (final : σ) (total : Nat) : Prop :=
  ∃ pages, Serves t.source pages failure final ∧
    pages.length + failure.toList.length ≤ fuel ∧
    t.buffer ++ pages.flatMap (·.records) = records ∧ t.pages + pages.length = total

/-- A walk at the end of its source. -/
structure Stopped (u : Traversal σ α) (final : σ) (total : Nat) : Prop where
  buffer : u.buffer = []
  source : u.source = final
  pages : u.pages = total

/-- What a look tells of such a walk, and the walk after it. -/
inductive Tells (fuel : Nat) (records : List Record) (failure : Option PagingError) (final : σ)
    (total : Nat) : Except PagingError Bool → Traversal σ α → Prop
  | record {u : Traversal σ α} (buffer : u.buffer ≠ [])
      (delivers : Delivers fuel u records failure final total) :
      Tells fuel records failure final total (.ok true) u
  | nothing {u : Traversal σ α} (none_left : records = []) (end_reached : failure = none)
      (stopped : Stopped u final total) : Tells fuel records failure final total (.ok false) u
  | failure {u : Traversal σ α} {e : PagingError} (none_left : records = [])
      (ends : failure = some e) (phase : u.phase = .failed) (stopped : Stopped u final total) :
      Tells fuel records failure final total (.error e) u

theorem fetchRecords_tells {s : σ} {pages : List Page} (h : Serves s pages failure final) :
    ∀ {k : Nat} {t : Traversal σ α}, pages.length + failure.toList.length ≤ k → k ≤ fuel →
      t.source = s → t.buffer = [] → ∃ r u, fetchRecords k t = some (r, u) ∧
        Tells fuel (pages.flatMap (·.records)) failure final (t.pages + pages.length) r u := by
  induction h with
  | dry more =>
    rintro k t - - rfl hbuffer
    refine ⟨_, t, ?_, .nothing rfl rfl ⟨hbuffer, rfl, rfl⟩⟩
    unfold fetchRecords
    rw [more]
    rfl
  | failure more fetch =>
    rintro k t hk - rfl hbuffer
    obtain ⟨k, rfl⟩ : ∃ j, k = j + 1 := ⟨k - 1, by simp at hk; omega⟩
    unfold fetchRecords
    simp only [more, if_true, fetch]
    exact ⟨_, _, rfl, .failure rfl rfl rfl ⟨hbuffer, rfl, rfl⟩⟩
  | @page s v final page pages failure more fetch continues rest ih =>
    rintro k t hk hfuel rfl hbuffer
    rw [List.length_cons] at hk
    obtain ⟨k, rfl⟩ : ∃ j, k = j + 1 := ⟨k - 1, by omega⟩
    have hpages : t.pages + (page :: pages).length = t.pages + 1 + pages.length := by
      rw [List.length_cons]
      omega
    unfold fetchRecords
    simp only [more, if_true, fetch, hpages, List.flatMap_cons]
    by_cases hrecords : page.records = []
    · simp only [hrecords, List.isEmpty_nil, Bool.not_true, Bool.false_eq_true, if_false,
        List.nil_append]
      cases hmore : page.continuation.isMore with
      | true =>
        obtain ⟨r, u, hfetch, htells⟩ := ih (k := k)
          (t := { t with source := v, pages := t.pages + 1 }) (by omega) (by omega) rfl hbuffer
        exact ⟨r, u, by simpa using hfetch, htells⟩
      | false =>
        obtain ⟨rfl, rfl, rfl⟩ := rest.of_dry (continues.trans hmore)
        exact ⟨_, _, rfl, .nothing rfl rfl ⟨hbuffer, rfl, rfl⟩⟩
    · have hsome : page.records.isEmpty = false := by simpa using hrecords
      simp only [hsome, Bool.not_false, if_true]
      refine ⟨_, _, rfl, .record (by simp [hrecords]) ⟨pages, rest, by omega, ?_, rfl⟩⟩
      rw [hbuffer]
      rfl

theorem lookAhead_tells (h : Delivers fuel t records failure final total) :
    ∃ r u, t.lookAhead fuel = some (r, u) ∧ Tells fuel records failure final total r u := by
  by_cases hbuffer : t.buffer = []
  · obtain ⟨pages, hserves, hlength, rfl, rfl⟩ := h
    rw [lookAhead_of_nil hbuffer, hbuffer]
    exact fetchRecords_tells hserves hlength (Nat.le_refl fuel) rfl hbuffer
  · exact ⟨_, t, lookAhead_of_ne_nil hbuffer, .record hbuffer h⟩

theorem hasNext_tells (h : Delivers fuel t records failure final total)
    (halive : t.phase ≠ .failed) (hopen : t.limit.isReached = false) :
    ∃ r u, t.hasNext fuel = some (r, u) ∧ Tells fuel records failure final total r u ∧
      u.phase = foundPhase r ∧ u.limit = t.limit ∧ u.materialize = t.materialize := by
  obtain ⟨r, u, hlook, htells⟩ := lookAhead_tells h
  have hmaterialize := (looksAhead_of_eq hlook).looks.materialize
  refine ⟨r, u.mark t.limit (foundPhase r), by rw [hasNext_of_open halive hopen, hlook]; rfl, ?_,
    rfl, rfl, hmaterialize⟩
  cases htells with
  | record buffer delivers => exact .record buffer delivers
  | nothing none_left end_reached stopped =>
    exact .nothing none_left end_reached ⟨stopped.buffer, stopped.source, stopped.pages⟩
  | failure none_left ends phase stopped =>
    exact .failure none_left ends rfl ⟨stopped.buffer, stopped.source, stopped.pages⟩

theorem next_of_delivers {record : Record} {rest : List Record}
    (h : Delivers fuel t (record :: rest) failure final total) (halive : t.phase ≠ .failed)
    (hopen : t.limit.isReached = false) :
    ∃ u, t.next fuel = some (some (t.materialize record), u) ∧
      Delivers fuel u rest failure final total ∧ u.phase ≠ .failed ∧
      u.limit = t.limit.consume ∧ u.materialize = t.materialize := by
  obtain ⟨r, u, hnext, htells, hphase, hlimit, hmaterialize⟩ := hasNext_tells h halive hopen
  cases htells with
  | record buffer delivers =>
    obtain ⟨first, more, hfirst⟩ := List.exists_cons_of_ne_nil buffer
    obtain ⟨pages, hserves, hlength, hrecords, htotal⟩ := delivers
    rw [hfirst, List.cons_append, List.cons.injEq] at hrecords
    obtain ⟨rfl, hrest⟩ := hrecords
    refine ⟨u.take first more, ?_, ⟨pages, hserves, hlength, hrest, htotal⟩, ?_,
      congrArg Limit.consume hlimit, hmaterialize⟩
    · rw [next, if_neg halive, hnext]
      simp only [nextItem_of_promised hphase (hlimit ▸ hopen) hfirst, hmaterialize]
    · simp only [take, hphase, foundPhase]
      split_ifs <;> decide
  | nothing none_left => cases none_left
  | failure none_left => cases none_left

/-- The phase of a walk that has come to the end of its source. -/
def stopPhase (failure : Option PagingError) : Phase :=
  if failure.isSome then .failed else .exhausted

theorem next_at_end (h : Delivers fuel t [] failure final total) (halive : t.phase ≠ .failed)
    (hopen : t.limit.isReached = false) :
    ∃ u, t.next fuel = some (failure.map .error, u) ∧ Stopped u final total ∧
      u.phase = stopPhase failure := by
  obtain ⟨r, u, hnext, htells, hphase, -, -⟩ := hasNext_tells h halive hopen
  refine ⟨u, ?_⟩
  rw [next, if_neg halive, hnext, hphase]
  cases htells with
  | record buffer delivers =>
    obtain ⟨pages, -, -, hrecords, -⟩ := delivers
    exact absurd (List.append_eq_nil_iff.1 hrecords).1 buffer
  | nothing none_left end_reached stopped =>
    subst end_reached
    exact ⟨rfl, stopped, rfl⟩
  | failure none_left ends phase stopped =>
    subst ends
    exact ⟨rfl, stopped, rfl⟩

theorem collect_of_delivers : ∀ (max : Nat) {records : List Record} {t : Traversal σ α},
    Delivers fuel t records failure final total → t.phase ≠ .failed → t.limit.remaining = none →
      records.length + failure.toList.length < max →
        ∃ u, collect fuel max t =
            some (records.map t.materialize ++ failure.toList.map .error, u) ∧
          Stopped u final total ∧ u.phase = stopPhase failure
  | 0, _, _, _, _, _, hmax => by omega
  | max + 1, [], t, h, halive, hlimit, hmax => by
    have hopen : t.limit.isReached = false := by rw [Limit.isReached, hlimit]; rfl
    obtain ⟨u, hnext, hstopped, hphase⟩ := next_at_end h halive hopen
    refine ⟨u, ?_, hstopped, hphase⟩
    rw [collect, hnext]
    cases failure with
    | none => rfl
    | some e =>
      simp only [Option.map_some, collect_of_failed hphase]
      rfl
  | max + 1, record :: rest, t, h, halive, hlimit, hmax => by
    have hopen : t.limit.isReached = false := by rw [Limit.isReached, hlimit]; rfl
    obtain ⟨v, hnext, hrest, hv, hconsume, hmaterialize⟩ := next_of_delivers h halive hopen
    have hunlimited : v.limit.remaining = none := by rw [hconsume, Limit.consume, hlimit]; rfl
    rw [List.length_cons] at hmax
    obtain ⟨u, hcollect, hstopped, hphase⟩ :=
      collect_of_delivers max hrest hv hunlimited (by omega)
    refine ⟨u, ?_, hstopped, hphase⟩
    rw [collect, hnext]
    simp only [hcollect, hmaterialize]
    rfl

/-- **A walk to the end of a source** hands out the records of all pages, and the failure if there
is one. -/
theorem collect_of_serves {source : σ} {pages : List Page} (h : Serves source pages failure final)
    (hfuel : pages.length + failure.toList.length ≤ fuel) {max : Nat}
    (hmax : (pages.flatMap (·.records)).length + failure.toList.length < max)
    (codec : PositionCodec)
    (m : Record → Except PagingError α) :
    ∃ u, collect fuel max (start source .unbounded codec m) =
        some ((pages.flatMap (·.records)).map m ++ failure.toList.map .error, u) ∧
      Stopped u final pages.length ∧ u.phase = stopPhase failure :=
  collect_of_delivers max (t := start source .unbounded codec m)
    ⟨pages, h, hfuel, rfl, Nat.zero_add _⟩ (by simp [start]) rfl hmax

end Traversal

end CursorPaging
