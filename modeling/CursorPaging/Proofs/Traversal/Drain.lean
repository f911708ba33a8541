import CursorPaging.Proofs.Traversal.Conservation
import CursorPaging.Proofs.Traversal.Mark

/-!
# Walks drained

A walk over a source that plays outcomes one after the other, drained by asking for the next result
until there is none, gives what can be read off the outcomes at once.

* `Plays`: such a source; `Script.plays`;
* `effective`: the records of some outcomes, and the failure that ends them;
* **`reference`**: the results of a walk, read off the outcomes;
* `Holds`, `Shows`: what a walk can still hand out, and what a look at it tells;
* `lookAhead_shows`, `next_takes`, `next_ends`, `next_fails`: one look, and the ways of one call;
* **`collect_eq_reference`**: collecting results gives the reference.
-/

namespace CursorPaging

/-- A source that plays some outcomes, and has more exactly as long as one is left. -/
inductive Plays {σ : Type} [PageSource σ] : σ → List (Except PagingError Page) → Prop
  | done {s : σ} (more : PageSource.hasMore s = false) : Plays s []
  | next {s u : σ} {outcome : Except PagingError Page} {rest : List (Except PagingError Page)}
      (more : PageSource.hasMore s = true) (fetch : PageSource.fetchPage s = (outcome, u))
      (later : Plays u rest) : Plays s (outcome :: rest)

theorem Script.plays (kind : SourceKind) : ∀ outcomes : List (Except PagingError Page),
    Plays (⟨outcomes, kind⟩ : Script) outcomes
  | [] => .done rfl
  | _ :: rest => .next rfl rfl (Script.plays kind rest)

/-- The records of some outcomes, up to the first failure or the first empty page that points
nowhere, and the failure if that is what comes first. -/
def effective : List (Except PagingError Page) → List Record × Option PagingError
  | [] => ([], none)
  | .error e :: _ => ([], some e)
  | .ok page :: rest =>
    if page.records.isEmpty && !page.continuation.isMore then ([], none)
    else (page.records ++ (effective rest).1, (effective rest).2)

/-! ## What a limit leaves -/

namespace Limit

variable {limit : Limit}

/-- As many of some records as the limit lets through. -/
def cut (limit : Limit) (records : List Record) : List Record :=
  match limit.remaining with
  | none => records
  | some n => records.take n

/-- Whether the limit lets more through than so many records. -/
def outlasts (limit : Limit) (count : Nat) : Bool :=
  match limit.remaining with
  | none => true
  | some n => count < n

theorem cut_of_reached (h : limit.isReached = true) (records : List Record) :
    limit.cut records = [] := by
  rw [isReached, decide_eq_true_eq] at h
  rw [cut, h]
  rfl

theorem outlasts_of_reached (h : limit.isReached = true) (count : Nat) :
    limit.outlasts count = false := by
  rw [isReached, decide_eq_true_eq] at h
  rw [outlasts, h]
  rfl

theorem outlasts_zero (h : limit.isReached = false) : limit.outlasts 0 = true := by
  rw [isReached, decide_eq_false_iff_not] at h
  rw [outlasts]
  split
  · rfl
  · rename_i n hn
    rw [hn, Option.some.injEq] at h
    exact decide_eq_true (Nat.pos_of_ne_zero h)

theorem cut_cons (h : limit.isReached = false) (record : Record) (rest : List Record) :
    limit.cut (record :: rest) = record :: limit.consume.cut rest := by
  rw [isReached, decide_eq_false_iff_not] at h
  rw [cut, cut, consume]
  cases hremaining : limit.remaining with
  | none => rfl
  | some n =>
    have hn : n ≠ 0 := fun hn => h (by rw [hremaining, hn])
    obtain ⟨k, rfl⟩ := Nat.exists_eq_succ_of_ne_zero hn
    rfl

theorem outlasts_succ (limit : Limit) (count : Nat) :
    limit.outlasts (count + 1) = limit.consume.outlasts count := by
  rw [outlasts, outlasts, consume]
  cases limit.remaining with
  | none => rfl
  | some n =>
    simp only [Option.map_some, decide_eq_decide]
    omega

end Limit

/-- What a walk with some limit hands out of records that end with or without a failure: as many as
the limit lets through, each made into its result, and the failure if the limit lasts until then. -/
def handsOut {α : Type} (limit : Limit) (m : Record → Except PagingError α)
    (records : List Record) (failure : Option PagingError) : List (Except PagingError α) :=
  (limit.cut records).map m ++
    if limit.outlasts records.length then failure.toList.map .error else []

/-- The results of a walk with some limit, read off the outcomes of its fetches. -/
def reference {α : Type} (limit : Limit) (m : Record → Except PagingError α)
    (outcomes : List (Except PagingError Page)) : List (Except PagingError α) :=
  handsOut limit m (effective outcomes).1 (effective outcomes).2

section HandsOut

variable {α : Type} {limit : Limit} (m : Record → Except PagingError α) (records : List Record)
  (failure : Option PagingError)

theorem handsOut_of_reached (h : limit.isReached = true) :
    handsOut limit m records failure = [] := by
  rw [handsOut, Limit.cut_of_reached h, Limit.outlasts_of_reached h]
  rfl

theorem handsOut_cons (h : limit.isReached = false) (record : Record) :
    handsOut limit m (record :: records) failure =
      m record :: handsOut limit.consume m records failure := by
  rw [handsOut, Limit.cut_cons h, List.length_cons, Limit.outlasts_succ]
  rfl

theorem handsOut_nil (h : limit.isReached = false) :
    handsOut limit m [] failure = failure.toList.map .error := by
  rw [handsOut, List.length_nil, Limit.outlasts_zero h, if_pos rfl]
  cases hremaining : limit.remaining with
  | none => simp [Limit.cut, hremaining]
  | some n => simp [Limit.cut, hremaining]

end HandsOut

namespace Traversal

variable {σ α : Type} [PageSource σ] {fuel : Nat} {t u : Traversal σ α} {records : List Record}
  {failure : Option PagingError}

/-! ## Looking ahead -/

/-- A walk that can still hand out some records, which end with or without a failure, and needs no
more than `fuel` fetches for it. -/
def Holds (fuel : Nat) (t : Traversal σ α) (records : List Record) (failure : Option PagingError) :
    Prop :=
  ∃ outcomes, Plays t.source outcomes ∧ outcomes.length ≤ fuel ∧
    t.buffer ++ (effective outcomes).1 = records ∧ (effective outcomes).2 = failure

/-- What a look tells of a walk that can still hand out some records, and the walk after it. -/
inductive Shows (fuel : Nat) (records : List Record) (failure : Option PagingError) :
    Except PagingError Bool → Traversal σ α → Prop
  | record {u : Traversal σ α} (buffer : u.buffer ≠ []) (alive : u.phase ≠ .failed)
      (holds : Holds fuel u records failure) : Shows fuel records failure (.ok true) u
  | nothing {u : Traversal σ α} (none_left : records = []) (end_reached : failure = none) :
      Shows fuel records failure (.ok false) u
  | failure {u : Traversal σ α} {e : PagingError} (none_left : records = [])
      (ends : failure = some e) (phase : u.phase = .failed) :
      Shows fuel records failure (.error e) u

theorem fetchRecords_shows {s : σ} {outcomes : List (Except PagingError Page)}
    (hplays : Plays s outcomes) : ∀ {k : Nat} {t : Traversal σ α}, outcomes.length ≤ k → k ≤ fuel →
      t.source = s → t.buffer = [] → t.phase ≠ .failed → ∃ r u, fetchRecords k t = some (r, u) ∧
        Shows fuel (effective outcomes).1 (effective outcomes).2 r u := by
  induction hplays with
  | done more =>
    intro k t _ _ hs _ _
    subst hs
    refine ⟨_, t, ?_, .nothing rfl rfl⟩
    unfold fetchRecords
    rw [more]
    rfl
  | @next s v outcome rest more fetch later ih =>
    intro k t hk hfuel hs hbuffer halive
    subst hs
    rw [List.length_cons] at hk
    obtain ⟨k, rfl⟩ : ∃ j, k = j + 1 := ⟨k - 1, by omega⟩
    unfold fetchRecords
    simp only [more, if_true, fetch]
    cases outcome with
    | error e => exact ⟨_, _, rfl, .failure rfl rfl rfl⟩
    | ok page =>
      by_cases hrecords : page.records = []
      · simp only [hrecords, List.isEmpty_nil, Bool.not_true, Bool.false_eq_true, if_false]
        cases hmore : page.continuation.isMore with
        | true =>
          have heffective : effective (.ok page :: rest) = effective rest := by
            simp [effective, hrecords, hmore]
          obtain ⟨r, u, hfetch, hshows⟩ := ih (k := k)
            (t := { t with source := v, pages := t.pages + 1 }) (by omega) (by omega) rfl hbuffer
            halive
          exact ⟨r, u, by simpa using hfetch, heffective ▸ hshows⟩
        | false =>
          have heffective : effective (.ok page :: rest) = ([], none) := by
            simp [effective, hrecords, hmore]
          rw [heffective]
          exact ⟨_, _, rfl, .nothing rfl rfl⟩
      · have hsome : page.records.isEmpty = false := by simpa using hrecords
        have heffective : effective (.ok page :: rest) =
            (page.records ++ (effective rest).1, (effective rest).2) := by
          simp [effective, hrecords]
        simp only [hsome, Bool.not_false, if_true, heffective]
        refine ⟨_, _, rfl, .record (by simp [hrecords]) halive ?_⟩
        exact ⟨rest, later, by omega, by rw [hbuffer]; rfl, rfl⟩

/-- **A look ahead** tells whether a record is left, or else what ends them. -/
theorem lookAhead_shows (h : Holds fuel t records failure) (halive : t.phase ≠ .failed) :
    ∃ r u, t.lookAhead fuel = some (r, u) ∧ Shows fuel records failure r u := by
  unfold lookAhead
  by_cases hbuffer : t.buffer = []
  · obtain ⟨outcomes, hplays, hlength, rfl, rfl⟩ := h
    have hnone : t.buffer.isEmpty = true := by simpa using hbuffer
    simp only [hnone, Bool.not_true, Bool.false_eq_true, if_false]
    have hrecords : t.buffer ++ (effective outcomes).1 = (effective outcomes).1 := by
      rw [hbuffer, List.nil_append]
    rw [hrecords]
    split_ifs
    · exact fetchRecords_shows hplays hlength (Nat.le_refl fuel) rfl hbuffer halive
    · exact fetchRecords_shows (t := { t with phase := .lookingAhead }) hplays hlength
        (Nat.le_refl fuel) rfl hbuffer (by simp)
  · have hsome : t.buffer.isEmpty = false := by simpa using hbuffer
    simp only [hsome, Bool.not_false, if_true]
    exact ⟨_, t, rfl, .record hbuffer halive h⟩

/-! ## Calls -/

theorem hasNext_shows (h : Holds fuel t records failure) (halive : t.phase ≠ .failed)
    (hopen : t.limit.isReached = false) :
    ∃ r u, t.hasNext fuel = some (r, u) ∧ u.limit = t.limit ∧ u.materialize = t.materialize ∧
      Shows fuel records failure r u := by
  obtain ⟨r, u, hlook, hshows⟩ := lookAhead_shows h halive
  have hlimit := (looksAhead_of_eq hlook).limit
  have hmaterialize := (looksAhead_of_eq hlook).looks.materialize
  unfold hasNext
  rw [if_neg halive, hopen, hlook]
  cases hshows with
  | record buffer alive holds =>
    exact ⟨_, _, rfl, hlimit, hmaterialize, .record buffer (by simp) holds⟩
  | nothing none_left end_reached =>
    exact ⟨_, _, rfl, hlimit, hmaterialize, .nothing none_left end_reached⟩
  | failure none_left ends phase =>
    exact ⟨_, _, rfl, hlimit, hmaterialize, .failure none_left ends phase⟩

theorem next_of_reached (fuel : Nat) (halive : t.phase ≠ .failed)
    (hlimit : t.limit.isReached = true) :
    t.next fuel = some (none, { t with phase := .limitReached }) := by
  rw [next, if_neg halive, hasNext, if_neg halive, if_pos hlimit]

theorem next_takes {record : Record} {rest : List Record}
    (h : Holds fuel t (record :: rest) failure) (halive : t.phase ≠ .failed)
    (hopen : t.limit.isReached = false) :
    ∃ u, t.next fuel = some (some (t.materialize record), u) ∧ Takes t record u ∧
      Holds fuel u rest failure ∧
      u.phase = if u.limit.isReached then .limitReached else .buffering := by
  obtain ⟨r, u, hnext, -, hmaterialize, hshows⟩ := hasNext_shows h halive hopen
  cases hshows with
  | record buffer alive holds =>
    obtain ⟨hbuffering, hleft, first, more, hfirst⟩ := (hasNext_of_eq hnext).promised
    obtain ⟨outcomes, hplays, hlength, hrecords, hfailure⟩ := holds
    rw [hfirst, List.cons_append, List.cons.injEq] at hrecords
    obtain ⟨rfl, hrest⟩ := hrecords
    refine ⟨u.take first more, ?_, (hasNext_of_eq hnext).takes hfirst,
      ⟨outcomes, hplays, hlength, hrest, hfailure⟩, ?_⟩
    · rw [next, if_neg halive, hnext]
      simp only [nextItem_of_promised hbuffering hleft hfirst, hmaterialize]
    · rw [take, hbuffering]
  | nothing none_left end_reached => cases none_left
  | failure none_left ends phase => cases none_left

theorem Holds.ne_nil (h : Holds fuel t records failure) (hbuffer : t.buffer ≠ []) :
    records ≠ [] := by
  obtain ⟨outcomes, -, -, rfl, -⟩ := h
  exact List.append_ne_nil_of_left_ne_nil hbuffer _

theorem next_ends (h : Holds fuel t [] none) (halive : t.phase ≠ .failed)
    (hopen : t.limit.isReached = false) : ∃ u, t.next fuel = some (none, u) := by
  obtain ⟨r, u, hnext, -, -, hshows⟩ := hasNext_shows h halive hopen
  cases hshows with
  | record buffer alive holds => exact absurd rfl (holds.ne_nil buffer)
  | nothing none_left end_reached => exact ⟨u, by rw [next, if_neg halive, hnext]⟩
  | failure none_left ends phase => cases ends

theorem next_fails {e : PagingError} (h : Holds fuel t [] (some e)) (halive : t.phase ≠ .failed)
    (hopen : t.limit.isReached = false) :
    ∃ u, t.next fuel = some (some (.error e), u) ∧ u.phase = .failed := by
  obtain ⟨r, u, hnext, -, -, hshows⟩ := hasNext_shows h halive hopen
  cases hshows with
  | record buffer alive holds => exact absurd rfl (holds.ne_nil buffer)
  | nothing none_left end_reached => cases end_reached
  | failure none_left ends phase =>
    cases ends
    exact ⟨u, by rw [next, if_neg halive, hnext], phase⟩

/-! ## Collected results -/

theorem collect_of_failed (hphase : t.phase = .failed) :
    ∀ max : Nat, collect fuel max t = some ([], t)
  | 0 => rfl
  | max + 1 => by rw [collect, next, if_pos hphase]

theorem collect_holds : ∀ (max : Nat) {t : Traversal σ α} {records : List Record}
    {failure : Option PagingError}, Holds fuel t records failure → t.phase ≠ .failed →
      (collect fuel max t).map (·.1) =
        some ((handsOut t.limit t.materialize records failure).take max)
  | 0, t, records, failure, _, _ => rfl
  | max + 1, t, records, failure, h, halive => by
    unfold collect
    cases hlimit : t.limit.isReached with
    | true =>
      rw [next_of_reached fuel halive hlimit, handsOut_of_reached _ _ _ hlimit]
      rfl
    | false =>
      match records, failure, h with
      | record :: rest, failure, h =>
        obtain ⟨u, hnext, htakes, hrest, hphase⟩ := next_takes h halive hlimit
        obtain ⟨hconsume, -, -, hmaterialize⟩ := htakes.kept
        have hcollect := collect_holds max hrest (by rw [hphase]; split_ifs <;> simp)
        rw [hconsume, hmaterialize] at hcollect
        obtain ⟨⟨items, v⟩, hitems, rfl⟩ := Option.map_eq_some_iff.1 hcollect
        rw [hnext, handsOut_cons _ _ _ hlimit, List.take_succ_cons]
        simp only [hitems]
        rfl
      | [], none, h =>
        obtain ⟨u, hnext⟩ := next_ends h halive hlimit
        rw [hnext, handsOut_nil _ _ hlimit]
        rfl
      | [], some e, h =>
        obtain ⟨u, hnext, hfailed⟩ := next_fails h halive hlimit
        rw [hnext, handsOut_nil _ _ hlimit, Option.toList_some, List.map_singleton,
          List.take_succ_cons, List.take_nil]
        simp only [collect_of_failed hfailed]
        rfl

/-- **Collecting gives the reference**, as many results of it as are asked for. -/
theorem collect_eq_reference {source : σ} {outcomes : List (Except PagingError Page)}
    (hplays : Plays source outcomes) (hfuel : outcomes.length ≤ fuel) (limit : Limit)
    (codec : PositionCodec) (m : Record → Except PagingError α) (max : Nat) :
    (collect fuel max (start source limit codec m)).map (·.1) =
      some ((reference limit m outcomes).take max) :=
  collect_holds max ⟨outcomes, hplays, hfuel, rfl, rfl⟩ (by simp [start])

/-- An empty page is skipped, the second record makes no result, and the failure comes within the
limit. -/
theorem collect_eq_reference_until_failure :
    let record (name : String) : Record := ⟨⟨[("name", .text name)], List.pairwise_singleton _ _⟩⟩
    let outcomes : List (Except PagingError Page) := [.ok ⟨[], .pending [default]⟩,
      .ok ⟨[record "a", default], .done⟩, .ok ⟨[record "c"], .done⟩,
      .error (.fetch (.unavailable "down")), .ok ⟨[record "d"], .done⟩]
    let m (r : Record) : Except PagingError Record :=
      if r.fields.isEmpty then .error (.materialize "empty") else .ok r
    Plays (⟨outcomes, .scan⟩ : Script) outcomes ∧ outcomes.length ≤ 5 ∧
      (collect 5 9 (start (⟨outcomes, .scan⟩ : Script) ⟨some 4, some 4⟩ .default m)).map (·.1) =
        some [.ok (record "a"), .error (.materialize "empty"), .ok (record "c"),
          .error (.fetch (.unavailable "down"))] := by
  intro record outcomes m
  have hreference : (reference ⟨some 4, some 4⟩ m outcomes).take 9 =
      [.ok (record "a"), .error (.materialize "empty"), .ok (record "c"),
        .error (.fetch (.unavailable "down"))] := rfl
  refine ⟨Script.plays _ _, by decide, ?_⟩
  rw [collect_eq_reference (Script.plays _ _) (by decide) _ _ _ _, hreference]

end Traversal

end CursorPaging
