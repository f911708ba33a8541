import CursorPaging.Proofs.Position
import CursorPaging.Proofs.Traversal.Failing

/-!
# Walks whose limit is used up

Once the limit is used up, a walk answers without its source and stays as it is, unless it is asked
for results past the limit. Such a question may fetch, and its fetch may fail, and then the walk has
failed. The position is that of the last record handed out in any case.

* `UsedUp`: such a walk; `UsedUp.hasNext`, `UsedUp.next`, `UsedUp.nextItem`: its answers;
* `PeekFailed`: a question past the limit has failed;
* `StaysUsedUp`, `UsedUp.call`, `UsedUp.calls`: what one call and any calls keep;
* `call_open`, `usedUp_of_calls`: calls that use the limit up;
* **`limit_keeps_answering`**.
-/

namespace CursorPaging

namespace Traversal

section Walks

variable {σ α : Type} {n : Nat} {t u v : Traversal σ α}

/-- A walk whose limit of `n` results is used up. -/
structure UsedUp (n : Nat) (t : Traversal σ α) : Prop where
  limit : t.limit = ⟨some n, some 0⟩
  phase : t.phase = .limitReached ∨ t.phase = .failed

theorem UsedUp.reached (h : UsedUp n t) : t.limit.isReached = true := by rw [h.limit]; rfl

theorem UsedUp.bounded (h : UsedUp n t) : t.limit.isBounded = true := by rw [h.limit]; rfl

theorem UsedUp.ne_exhausted (h : UsedUp n t) : t.phase ≠ .exhausted := by
  obtain hphase | hphase := h.phase <;> simp [hphase]

/-- What stays of a walk whose limit is used up; `failed` says that a question past the limit has
failed. -/
structure StaysUsedUp (n : Nat) (failed : Prop) (t u : Traversal σ α) : Prop where
  usedUp : UsedUp n u
  lastExamined : u.lastExamined = t.lastExamined
  codec : u.codec = t.codec
  phase : u.phase = .failed ↔ t.phase = .failed ∨ failed

theorem UsedUp.stays {failed : Prop} (h : UsedUp n t) (hfailed : ¬ failed) :
    StaysUsedUp n failed t t :=
  ⟨h, rfl, rfl, (or_iff_left hfailed).symm⟩

theorem StaysUsedUp.trans {first later : Prop} (h : StaysUsedUp n first t u)
    (h' : StaysUsedUp n later u v) : StaysUsedUp n (first ∨ later) t v :=
  ⟨h'.usedUp, h'.lastExamined.trans h.lastExamined, h'.codec.trans h.codec, by
    rw [h'.phase, h.phase, or_assoc]⟩

/-- Among some calls and the answers to them is a failed question past the limit. -/
def PeekFailed (cs : List Call) (answers : List (Answer α)) : Prop :=
  ∃ e, (Call.ask .hasResultsPastLimit, Answer.found (.error e)) ∈ cs.zip answers

theorem peekFailed_cons {c : Call} {cs : List Call} {answer : Answer α}
    {answers : List (Answer α)} : PeekFailed (c :: cs) (answer :: answers) ↔
      (c = .ask .hasResultsPastLimit ∧ ∃ e, answer = .found (.error e)) ∨
        PeekFailed cs answers := by
  simp only [PeekFailed, List.zip_cons_cons, List.mem_cons, Prod.mk.injEq, exists_or,
    exists_and_left, eq_comm]

end Walks

variable {σ α : Type} [PageSource σ] {fuel n : Nat} {t u v : Traversal σ α} {c : Call}
  {answer : Answer α}

/-! ## Answers -/

theorem UsedUp.hasNext (h : UsedUp n t) (fuel : Nat) : t.hasNext fuel =
    some (if t.phase = .failed then .error (.misuse .alreadyFailed) else .ok false, t) := by
  rw [Traversal.hasNext, if_pos h.reached]
  split_ifs with hphase
  · rfl
  · rw [← h.phase.resolve_right hphase]

theorem UsedUp.next (h : UsedUp n t) (fuel : Nat) : t.next fuel = some (none, t) := by
  rw [Traversal.next, h.hasNext]
  split_ifs <;> rfl

theorem UsedUp.nextItem (h : UsedUp n t) (fuel : Nat) :
    t.nextItem fuel = some (.error (.limitReached n), t) := by
  rw [Traversal.nextItem, if_pos h.reached, h.limit]
  rfl

/-- **Only a question past the limit** does anything to the walk. -/
theorem UsedUp.unchanged (h : UsedUp n t) (fuel : Nat) (hc : c ≠ .ask .hasResultsPastLimit) :
    ∃ answer, t.call fuel c = some (answer, t) := by
  match c, hc with
  | .ask .hasNext, _ => exact ⟨_, by rw [Traversal.call, ask, h.hasNext]; rfl⟩
  | .ask .next, _ => exact ⟨_, by rw [Traversal.call, ask, h.next]; rfl⟩
  | .ask .nextItem, _ => exact ⟨_, by rw [Traversal.call, ask, h.nextItem]; rfl⟩
  | .resumeKey removeHashKey, _ => exact ⟨_, rfl⟩
  | .position removeHashKey, _ => exact ⟨_, rfl⟩

/-! ## Questions past the limit -/

theorem PastLimit.phase_of_error {e : PagingError} (h : PastLimit fuel t (.error e) u)
    (hbounded : t.limit.isBounded = true) : u.phase = .failed := by
  cases h with
  | unbounded bounded => rw [hbounded] at bounded; cases bounded
  | within bounded limit next =>
    cases next with
    | failed phase => exact phase
    | failure alive limit look => exact look.phase_of_error
  | failed bounded limit phase => exact phase
  | past bounded limit alive look => exact look.phase_of_error

theorem UsedUp.peek {r : Except PagingError Bool} (h : UsedUp n t) (hrun : PastLimit fuel t r u) :
    StaysUsedUp n (∃ e, r = .error e) t u := by
  cases hrun with
  | unbounded bounded => rw [h.bounded] at bounded; cases bounded
  | within bounded limit => rw [h.reached] at limit; cases limit
  | failed bounded limit phase => exact ⟨h, rfl, rfl, by simp [phase]⟩
  | past bounded limit alive look =>
    obtain ⟨hlimit, hlast, hcodec, -⟩ := look.looks.kept
    have hphase := look.phase_past rfl
    refine ⟨⟨hlimit.trans h.limit, ?_⟩, hlast, hcodec, ?_⟩ <;> rw [hphase] <;>
      cases r <;> simp [endPhase, alive]

/-! ## Calls after the limit is used up -/

/-- **One call** keeps the limit used up, the position and the phase, but for a failed question past
the limit. -/
theorem UsedUp.call (h : UsedUp n t) (hcall : t.call fuel c = some (answer, u)) :
    StaysUsedUp n (c = .ask .hasResultsPastLimit ∧ ∃ e, answer = .found (.error e)) t u := by
  by_cases hc : c = .ask .hasResultsPastLimit
  · subst hc
    obtain ⟨⟨r, w⟩, hr, heq⟩ := Option.map_eq_some_iff.1 hcall
    cases heq
    simpa using h.peek (pastLimit_of_eq hr)
  · obtain ⟨answer', hsame⟩ := h.unchanged fuel hc
    rw [hsame] at hcall
    cases hcall
    exact h.stays fun hpeek => hc hpeek.1

theorem UsedUp.calls : ∀ (cs : List Call) {t : Traversal σ α} {answers : List (Answer α)},
    UsedUp n t → calls fuel cs t = some (answers, u) → StaysUsedUp n (PeekFailed cs answers) t u
  | [], t, answers, h, hcalls => by
    cases hcalls
    exact h.stays (by simp [PeekFailed])
  | c :: rest, t, answers, h, hcalls => by
    obtain ⟨answer, v, later, hcall, hlater, rfl⟩ := calls_cons hcalls
    have hstep := h.call hcall
    rw [peekFailed_cons]
    exact hstep.trans (UsedUp.calls rest hstep.usedUp hlater)

/-! ## Calls that use the limit up -/

theorem call_open (hopen : t.limit.isReached = false) (h : t.call fuel c = some (answer, u)) :
    u.limit.requested = t.limit.requested ∧
      (u.limit.isReached = true → u.phase = .limitReached) := by
  rcases call_cases h with ⟨hlooks, -⟩ | ⟨record, ⟨v, rest, hlooks, -, -, rfl⟩, -⟩
  · rw [hlooks.kept.1]
    exact ⟨rfl, fun hreached => by rw [hopen] at hreached; cases hreached⟩
  · exact ⟨by rw [← hlooks.kept.1]; rfl, fun hreached => if_pos hreached⟩

/-- **Calls that use the limit up** leave a failed walk exactly if a question past it has failed. -/
theorem usedUp_of_calls : ∀ (cs : List Call) {t : Traversal σ α} {answers : List (Answer α)},
    t.limit.requested = some n → t.limit.isReached = false →
      calls fuel cs t = some (answers, u) → u.limit.isReached = true →
      UsedUp n u ∧ (u.phase = .failed ↔ PeekFailed cs answers)
  | [], t, answers, _, hopen, hcalls, hreached => by
    cases hcalls
    rw [hopen] at hreached
    cases hreached
  | c :: rest, t, answers, hrequested, hopen, hcalls, hreached => by
    obtain ⟨answer, v, later, hcall, hlater, rfl⟩ := calls_cons hcalls
    obtain ⟨hrequested', hphase⟩ := call_open hopen hcall
    -- otherwise the limit would stay open
    have halive : v.phase ≠ .failed := by
      intro hfailed
      rw [calls_of_standing (ask_of_failed fuel hfailed)] at hlater
      cases hlater
      rw [hphase hreached] at hfailed
      cases hfailed
    have hpeek : ¬ (c = .ask .hasResultsPastLimit ∧ ∃ e, answer = .found (.error e)) := by
      rintro ⟨rfl, e, rfl⟩
      obtain ⟨⟨r, w⟩, hr, heq⟩ := Option.map_eq_some_iff.1 hcall
      cases heq
      exact halive ((pastLimit_of_eq hr).phase_of_error (by simp [Limit.isBounded, hrequested]))
    rw [peekFailed_cons, or_iff_right hpeek]
    cases hv : v.limit.isReached with
    | false => exact usedUp_of_calls rest (hrequested'.trans hrequested) hv hlater hreached
    | true =>
      have hlimit : v.limit = ⟨some n, some 0⟩ := by
        have hremaining : v.limit.remaining = some 0 := by simpa [Limit.isReached] using hv
        rw [← hremaining, ← hrequested'.trans hrequested]
      have hstays := UsedUp.calls rest ⟨hlimit, .inl (hphase hv)⟩ hlater
      exact ⟨hstays.usedUp, by rw [hstays.phase, or_iff_right halive]⟩

theorem position_of_last {taken : List Record} {record : Record} {schema : KeySchema}
    {key : ResumeKey} {token : String} (hphase : t.phase ≠ .exhausted)
    (hlast : t.lastExamined = taken.getLast?) (hrecord : taken.getLast? = some record)
    (hschema : PageSource.keySchema t.source = .ok schema)
    (hkey : record.project schema.fields = .ok key) (htoken : t.codec.encode key = .ok token) :
    t.position = .ok (some token) := by
  have hresume : t.resumeKey false = .ok (some key) := by
    rw [resumeKey_of_last hphase hlast hschema, keyOfLast, hrecord]
    simp only [hkey]
  rw [position, encodePosition, hresume]
  simp only [htoken]
  rfl

/-- **A used up limit keeps answering.** The walk has failed exactly if a question past the limit
has, and until then nothing is next. Its position stays as long as the source tells the same kind
and key layout. -/
theorem limit_keeps_answering {source : σ} {limit : Limit} {codec : PositionCodec}
    {m : Record → Except PagingError α} {cs later : List Call} {answers told : List (Answer α)}
    (hlimit : Limit.atMost n = .ok limit)
    (hcalls : calls fuel cs (start source limit codec m) = some (answers, t))
    (hreached : t.limit.isReached = true) (hlater : calls fuel later t = some (told, u)) :
    (u.phase = .failed ↔ PeekFailed cs answers ∨ PeekFailed later told) ∧
    (∀ fuel, u.hasNext fuel =
      some (if u.phase = .failed then .error (.misuse .alreadyFailed) else .ok false, u)) ∧
    (∀ fuel, u.next fuel = some (none, u)) ∧
    (∀ fuel, u.nextItem fuel = some (.error (.limitReached n), u)) ∧
    (∀ removeHashKey,
      (removeHashKey = true → PageSource.kind u.source = PageSource.kind t.source) →
      PageSource.keySchema u.source = PageSource.keySchema t.source →
      u.encodePosition removeHashKey = t.encodePosition removeHashKey) ∧
    ∃ taken record, takenOut fuel cs (start source limit codec m) = some taken ∧
      taken.length = n ∧ taken.getLast? = some record ∧
      ∀ schema key token, PageSource.keySchema u.source = .ok schema →
        record.project schema.fields = .ok key → codec.encode key = .ok token →
        u.position = .ok (some token) := by
  obtain ⟨hn, rfl⟩ := Limit.eq_of_atMost hlimit
  obtain ⟨taken, fetched, htaken, hconserved⟩ := conserved_of_calls hcalls
  obtain ⟨hle, hleft⟩ := hconserved.bounded n hlimit
  have hlength : taken.length = n := by
    rw [hleft] at hreached
    simp [Limit.isReached] at hreached
    omega
  obtain ⟨record, hrecord⟩ : ∃ record, taken.getLast? = some record :=
    Option.isSome_iff_exists.1
      (by simp only [List.getLast?_isSome]; rintro rfl; exact hn hlength.symm)
  obtain ⟨husedUp, hfailed⟩ := usedUp_of_calls (n := n) cs rfl
    (by simpa [start, Limit.isReached] using hn) hcalls hreached
  have hstays := husedUp.calls later hlater
  refine ⟨by rw [hstays.phase, hfailed], hstays.usedUp.hasNext, hstays.usedUp.next,
    hstays.usedUp.nextItem, fun removeHashKey hkind hschema => ?_, taken, record, htaken, hlength,
    hrecord, fun schema key token hschema hkey htoken => ?_⟩
  · exact encodePosition_congr hkind hschema
      (iff_of_false hstays.usedUp.ne_exhausted husedUp.ne_exhausted) hstays.lastExamined
      hstays.codec
  · have hcodec : u.codec = codec := hstays.codec.trans (calls_codec hcalls)
    exact position_of_last hstays.usedUp.ne_exhausted
      (hstays.lastExamined.trans hconserved.lastExamined) hrecord hschema hkey (hcodec ▸ htoken)

/-- The limit is used up by the only record of the first page, and the look past it fails. -/
theorem limit_keeps_answering_after_failed_peek :
    let record : Record := ⟨⟨[("id", .text "a")], List.pairwise_singleton _ _⟩⟩
    let down : PagingError := .fetch (.unavailable "down")
    let source : Keyed Script :=
      ⟨⟨[.ok ⟨[record], .done⟩, .error down], .rangeQuery⟩, [⟨"id", none⟩]⟩
    let later : List Call := [.ask .hasNext, .ask .hasResultsPastLimit, .ask .hasNext]
    ∃ t told u, calls 1 [.ask .nextItem] (start source ⟨some 1, some 1⟩ .default .ok) =
        some ([.item (.ok record)], t) ∧
      calls 1 later t = some (told, u) ∧ u.phase = .failed ∧
      (∀ fuel, u.hasNext fuel = some (.error (.misuse .alreadyFailed), u)) ∧
      (∀ fuel, u.next fuel = some (none, u)) ∧
      (∀ fuel, u.nextItem fuel = some (.error (.limitReached 1), u)) ∧
      u.position = t.position ∧ u.position = .ok (some "aWQ9U2E%3D") := by
  intro record down source later
  have hend : ((calls 1 [.ask .nextItem] (start source ⟨some 1, some 1⟩ .default .ok)).bind
      fun r => calls 1 later r.2).map (fun r => (r.2.phase, r.2.source.schemas)) =
        some (.failed, [⟨"id", none⟩]) := by decide +kernel
  obtain ⟨t, ht⟩ : ∃ t, calls 1 [.ask .nextItem] (start source ⟨some 1, some 1⟩ .default .ok) =
      some ([.item (.ok record)], t) := ⟨_, rfl⟩
  rw [ht, Option.bind_some] at hend
  obtain ⟨⟨told, u⟩, hu, hfailed⟩ := Option.map_eq_some_iff.1 hend
  obtain ⟨hphase, hschemas⟩ := Prod.mk.inj hfailed
  have hschema : PageSource.keySchema u.source = .ok ⟨"id", none⟩ := by
    change u.source.keySchema = _
    rw [Keyed.keySchema, hschemas]
  have hreached : t.limit.isReached = true := by
    cases ht
    rfl
  have hschema' : PageSource.keySchema t.source = .ok ⟨"id", none⟩ := by
    cases ht
    rfl
  obtain ⟨-, hnext, hpull, hitem, hposition, taken, last, htaken, -, hlast, htoken⟩ :=
    limit_keeps_answering (n := 1) rfl ht hreached hu
  have hrecord : last = record := by
    have htaken' : takenOut 1 [.ask .nextItem] (start source ⟨some 1, some 1⟩ .default .ok) =
        some [record] := rfl
    rw [htaken'] at htaken
    cases htaken
    exact (Option.some.inj hlast).symm
  rw [hphase] at hnext
  have hencode : PositionCodec.default.encode ⟨record.fields⟩ = .ok "aWQ9U2E%3D" := by
    decide +kernel
  refine ⟨t, told, u, ht, hu, hphase, hnext, hpull, hitem, ?_, ?_⟩
  · exact hposition false (nomatch ·) (hschema.trans hschema'.symm)
  · exact htoken ⟨"id", none⟩ ⟨record.fields⟩ _ hschema (by rw [hrecord]; rfl) hencode

/-- A failed look past the limit is told by the next question, and a source that changes its key
layout when it fetches changes the position. -/
theorem limit_not_keeps_answering :
    let record (name : String) : Record := ⟨⟨[("id", .text name)], List.pairwise_singleton _ _⟩⟩
    let down : PagingError := .fetch (.unavailable "down")
    let failing : Script := ⟨[.ok ⟨[record "a"], .done⟩, .error down], .scan⟩
    let changing : Keyed Script := ⟨⟨[.ok ⟨[record "a"], .done⟩, .ok ⟨[record "b"], .done⟩], .scan⟩,
      [⟨"id", none⟩, ⟨"id", none⟩, ⟨"name", none⟩]⟩
    (∃ t u, calls 1 [.ask .nextItem] (start failing ⟨some 1, some 1⟩ .default .ok) =
          some ([.item (.ok (record "a"))], t) ∧
        t.limit.isReached = true ∧
        calls 1 [.ask .hasResultsPastLimit] t = some ([.found (.error down)], u) ∧
        u.hasNext 1 = some (.error (.misuse .alreadyFailed), u)) ∧
      ∃ t u, calls 1 [.ask .nextItem] (start changing ⟨some 1, some 1⟩ .default .ok) =
          some ([.item (.ok (record "a"))], t) ∧
        t.limit.isReached = true ∧ t.position = .ok (some "aWQ9U2E%3D") ∧
        calls 1 [.ask .hasResultsPastLimit] t = some ([.found (.ok true)], u) ∧
        u.position = .error (.missingKeyField "name") := by
  intro record down failing changing
  have htoken : (calls 1 [.ask .nextItem] (start changing ⟨some 1, some 1⟩ .default .ok)).map
      (·.2.position) = some (.ok (some "aWQ9U2E%3D")) := by decide +kernel
  obtain ⟨t, ht⟩ : ∃ t, calls 1 [.ask .nextItem] (start changing ⟨some 1, some 1⟩ .default .ok) =
      some ([.item (.ok (record "a"))], t) := ⟨_, rfl⟩
  rw [ht] at htoken
  have hrun := ht
  obtain ⟨u, hreached, hu, hposition⟩ : ∃ u, t.limit.isReached = true ∧
      calls 1 [.ask .hasResultsPastLimit] t = some ([.found (.ok true)], u) ∧
      u.position = .error (.missingKeyField "name") := by
    cases hrun
    exact ⟨_, rfl, rfl, rfl⟩
  exact ⟨⟨_, _, rfl, rfl, rfl, rfl⟩, t, u, ht, hreached, Option.some.inj htoken, hu, hposition⟩

end Traversal

end CursorPaging
