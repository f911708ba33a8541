import CursorPaging.Proofs.Traversal.Phases
import CursorPaging.Proofs.Traversal.Supply
import CursorPaging.Proofs.Traversal.Truncation

/-!
# Failed fetches

A failed fetch ends a walk. The call that made it answers with its error, no call after it reaches
the source again, and the position stays that of the last record handed out.

* `Ask.afterFailure`, `ask_of_failed`: how a failed walk answers;
* `Fetches.outcomes`, `LooksAhead.outcomes`: the outcomes of a look over a watched source;
* `call_outcomes`: one call fetches pages only, or its last fetch fails and it fails with it;
* `FailsOnce`, `calls_fails`: any calls, of which one may fail;
* **`failure_ends_walk`**.
-/

namespace CursorPaging

/-- The answer of a failed walk with some limit. -/
def Ask.afterFailure {α : Type} (limit : Limit) : Ask → Answer α
  | .hasNext => .found (.error (.misuse .alreadyFailed))
  | .nextItem =>
    .item (.error (if limit.isReached then .limitReached (limit.requested.getD 0)
      else .misuse .alreadyFailed))
  | .next => .pulled none
  | .hasResultsPastLimit =>
    .found (.error (if limit.isBounded then .misuse .alreadyFailed else .noLimit))

/-- Outcomes that are pages, and then the failure of what they were fetched for. -/
def outcomesFor (pages : List Page) : Except PagingError Bool → List (Except PagingError Page)
  | .ok _ => pages.map .ok
  | .error e => pages.map .ok ++ [.error e]

namespace Traversal

section Failed

variable {σ α : Type} [PageSource σ] {t : Traversal σ α}

/-- **A failed walk** answers without its source and stays as it is. -/
theorem ask_of_failed (fuel : Nat) (hphase : t.phase = .failed) (ask : Ask) :
    t.ask fuel ask = some (ask.afterFailure t.limit, t) := by
  have hnext : t.hasNext fuel = some (.error (.misuse .alreadyFailed), t) := by
    rw [hasNext, if_pos hphase]
  cases ask with
  | hasNext => rw [Traversal.ask, hnext]; rfl
  | nextItem =>
    rw [Traversal.ask, nextItem, hnext, Ask.afterFailure]
    cases t.limit.isReached <;> rfl
  | next => rw [Traversal.ask, next, if_pos hphase]; rfl
  | hasResultsPastLimit =>
    rw [Traversal.ask, hasResultsPastLimit, hnext, if_pos hphase, Ask.afterFailure]
    cases t.limit.isBounded <;> cases t.limit.isReached <;> rfl

end Failed

/-! ## Outcomes -/

variable {σ α : Type} [PageSource σ] {fuel : Nat} {t u v : Traversal (Watched σ) α}
  {r : Except PagingError Bool} {ask : Ask} {answer : Answer α}

theorem Fetches.outcomes (h : Fetches fuel t r u) :
    ∃ pages, u.source.outcomes = t.source.outcomes ++ outcomesFor pages r := by
  induction h with
  | dry => exact ⟨[], (List.append_nil _).symm⟩
  | failure more fetch => exact ⟨[], Watched.outcomes_of_fetch fetch⟩
  | @found fuel t page source more fetch => exact ⟨[page], Watched.outcomes_of_fetch fetch⟩
  | @last fuel t page source more fetch => exact ⟨[page], Watched.outcomes_of_fetch fetch⟩
  | @skip fuel t u page source r more fetch records continues rest ih =>
    obtain ⟨pages, hpages⟩ := ih
    refine ⟨page :: pages, ?_⟩
    rw [hpages, Watched.outcomes_of_fetch fetch, List.append_assoc]
    cases r <;> rfl

theorem LooksAhead.outcomes (h : LooksAhead fuel t r u) :
    ∃ pages, u.source.outcomes = t.source.outcomes ++ outcomesFor pages r := by
  cases h with
  | buffered => exact ⟨[], (List.append_nil _).symm⟩
  | past buffer phase fetches => exact fetches.outcomes
  | ahead buffer phase fetches => exact fetches.outcomes

/-- Nothing but pages was fetched between two walks, and the second has not failed. -/
structure Fares (t u : Traversal (Watched σ) α) : Prop where
  alive : u.phase ≠ .failed
  outcomes : ∃ pages : List Page, u.source.outcomes = t.source.outcomes ++ pages.map .ok

/-- A call of which the last fetch failed: it answers with the error of this fetch and leaves the
walk failed, with the limit and the last record handed out as they were. -/
structure FailsBy (t : Traversal (Watched σ) α) (ask : Ask) (answer : Answer α)
    (u : Traversal (Watched σ) α) : Prop where
  outcomes : ∃ (pages : List Page) (e : PagingError), answer = ask.failure e ∧
    u.source.outcomes = t.source.outcomes ++ (pages.map .ok ++ [.error e])
  phase : u.phase = .failed
  limit : u.limit = t.limit
  lastExamined : u.lastExamined = t.lastExamined

omit [PageSource σ] in
theorem Fares.refl (h : t.phase ≠ .failed) : Fares t t := ⟨h, [], (List.append_nil _).symm⟩

omit [PageSource σ] in
theorem Fares.trans (h : Fares t u) (h' : Fares u v) : Fares t v := by
  obtain ⟨pages, hpages⟩ := h.outcomes
  obtain ⟨pages', hpages'⟩ := h'.outcomes
  refine ⟨h'.alive, pages ++ pages', ?_⟩
  rw [hpages', hpages, List.map_append, List.append_assoc]

theorem Leaves.outcomes (h : Leaves fuel t ask answer u) (halive : t.phase ≠ .failed) :
    Fares t u ∨ FailsBy t ask answer u := by
  cases h with
  | same => exact .inl (.refl halive)
  | reached => exact .inl ⟨by simp, [], (List.append_nil _).symm⟩
  | @failed e u phase alive look =>
    obtain ⟨pages, hpages⟩ := look.outcomes
    exact .inr ⟨⟨pages, e, rfl, hpages⟩, look.phase_of_error, look.limit, look.looks.kept.2.1⟩
  | nothing answer alive limit look => exact .inl ⟨by simp, look.outcomes⟩
  | found answer alive limit look => exact .inl ⟨by simp, look.outcomes⟩
  | taken answer alive limit look =>
    refine .inl ⟨?_, look.outcomes⟩
    simp only [take]
    split_ifs <;> simp
  | past answer alive limit look =>
    exact .inl ⟨by simp [look.phase_past rfl, endPhase], look.outcomes⟩

/-- **A call** on a walk that has not failed fetches pages, or fails by its last fetch. -/
theorem call_outcomes {c : Call} (h : t.call fuel c = some (answer, u))
    (halive : t.phase ≠ .failed) : Fares t u ∨ ∃ ask, c = .ask ask ∧ FailsBy t ask answer u := by
  cases c with
  | ask ask => exact (leaves_of_eq h).outcomes halive |>.imp_right fun hfails => ⟨ask, rfl, hfails⟩
  | resumeKey removeHashKey =>
    cases h
    exact .inl (.refl halive)
  | position removeHashKey =>
    cases h
    exact .inl (.refl halive)

/-! ## Any calls -/

/-- Calls of which one fails by a fetch: no fetch before it failed, and the calls after it find the
walk failed. -/
inductive FailsOnce (fuel : Nat) (t : Traversal (Watched σ) α) :
    List Call → List (Answer α) → Traversal (Watched σ) α → Prop
  | intro {before after : List Call} {ask : Ask} {told : List (Answer α)} {answer : Answer α}
      {v u : Traversal (Watched σ) α} (run : calls fuel before t = some (told, v))
      (fares : Fares t v) (call : v.ask fuel ask = some (answer, u))
      (fails : FailsBy v ask answer u) :
      FailsOnce fuel t (before ++ .ask ask :: after)
        (told ++ answer :: after.map (u.standing (Ask.afterFailure u.limit))) u

theorem FailsOnce.cons {c : Call} {cs : List Call} {answers : List (Answer α)}
    (hcall : t.call fuel c = some (answer, v)) (hfares : Fares t v)
    (h : FailsOnce fuel v cs answers u) : FailsOnce fuel t (c :: cs) (answer :: answers) u := by
  cases h with
  | @intro before after ask told answer' w u run fares call fails =>
    have hrun : calls fuel (c :: before) t = some (answer :: told, w) := by
      rw [calls, hcall]
      simp only [run]
      rfl
    exact .intro hrun (hfares.trans fares) call fails

/-- **Any calls** on a walk that has not failed: none fails by a fetch, or one does. -/
theorem calls_fails : ∀ (cs : List Call) {t : Traversal (Watched σ) α} {answers : List (Answer α)},
    t.phase ≠ .failed → calls fuel cs t = some (answers, u) →
      Fares t u ∨ u.phase = .failed ∧ FailsOnce fuel t cs answers u
  | [], t, answers, halive, h => by
    cases h
    exact .inl (.refl halive)
  | c :: rest, t, answers, halive, h => by
    obtain ⟨answer, v, later, hcall, hlater, rfl⟩ := calls_cons h
    obtain hfares | ⟨ask, rfl, hfails⟩ := call_outcomes hcall halive
    · obtain hfares' | ⟨hphase, hfails⟩ := calls_fails rest hfares.alive hlater
      · exact .inl (hfares.trans hfares')
      · exact .inr ⟨hphase, hfails.cons hcall hfares⟩
    · -- the calls after it leave the walk as it is
      rw [calls_of_standing (ask_of_failed fuel hfails.phase)] at hlater
      cases hlater
      have hrun : calls fuel [] t = some ([], t) := rfl
      exact .inr ⟨hfails.phase, .intro hrun (.refl halive) hcall hfails⟩

omit [PageSource σ] in
theorem start_eq_view (source : σ) (limit : Limit) (codec : PositionCodec)
    (m : Record → Except PagingError α) : start source limit codec m =
      (start (Watched.fromStart source) limit codec m).view Watched.inner .ok := by
  have hm : (fun record => (m record).bind .ok) = m := by
    funext record
    cases m record <;> rfl
  simp only [start, view, Watched.fromStart, hm]

/-- **A failed fetch ends a walk** once and for all and loses nothing. Either all fetches brought
pages, or one call failed with the error of its own last fetch, and from then on the walk stays as
it is. -/
theorem failure_ends_walk (source : σ) (limit : Limit) (codec : PositionCodec)
    (m : Record → Except PagingError α) (fuel : Nat) (cs : List Call) {answers : List (Answer α)}
    {t : Traversal σ α} (h : calls fuel cs (start source limit codec m) = some (answers, t)) :
    ∃ u : Traversal (Watched σ) α,
      calls fuel cs (start (.fromStart source) limit codec m) = some (answers, u) ∧
      t = u.view Watched.inner .ok ∧
      (Fares (start (.fromStart source) limit codec m) u ∨
        FailsOnce fuel (start (.fromStart source) limit codec m) cs answers u ∧
        t.phase = .failed ∧
        (∀ fuel later,
          calls fuel later t = some (later.map (t.standing (Ask.afterFailure t.limit)), t)) ∧
        ∃ taken, takenOut fuel cs (start source limit codec m) = some taken ∧
          ∀ schema, PageSource.keySchema t.source = .ok schema →
            t.resumeKey false = keyOfLast schema taken) := by
  obtain ⟨taken, fetched, htaken, hconserved⟩ := conserved_of_calls h
  have hview := h
  rw [start_eq_view, calls_view Watched.sourceMap_inner] at hview
  obtain ⟨⟨raw, u⟩, hraw, heq⟩ := Option.map_eq_some_iff.1 hview
  simp only [Answer.bind_ok, List.map_id', Prod.mk.injEq] at heq
  obtain ⟨rfl, rfl⟩ := heq
  refine ⟨u, hraw, rfl, ?_⟩
  refine (calls_fails cs (by simp [start]) hraw).imp_right fun ⟨hphase, hfails⟩ => ?_
  have hphase' : (u.view Watched.inner .ok).phase = .failed := hphase
  refine ⟨hfails, hphase', fun fuel later => ?_, taken, htaken, fun schema hschema => ?_⟩
  · exact calls_of_standing (ask_of_failed fuel hphase') later
  · exact resumeKey_of_last (by rw [hphase']; decide) hconserved.lastExamined hschema

/-- The second record is buffered when the fetch after it fails, and the limit would let a third one
through. -/
theorem failure_ends_walk_after_two :
    let record (name : String) : Record := ⟨⟨[("id", .text name)], List.pairwise_singleton _ _⟩⟩
    let down : PagingError := .fetch (.unavailable "down")
    let source : Keyed Script := ⟨⟨[.ok ⟨[record "a", record "b"], .done⟩, .error down,
      .ok ⟨[record "c"], .done⟩], .scan⟩, [⟨"id", none⟩]⟩
    let cs : List Call := [.ask .next, .ask .nextItem, .ask .hasResultsPastLimit, .ask .hasNext]
    ∃ answers t, calls 3 cs (start source ⟨some 3, some 3⟩ .default .ok) = some (answers, t) ∧
      (∃ u, FailsOnce 3 (start (.fromStart source) ⟨some 3, some 3⟩ .default .ok) cs answers u) ∧
      (∀ fuel, calls fuel [.ask .next, .ask .nextItem] t =
        some ([.pulled none, .item (.error (.misuse .alreadyFailed))], t)) ∧
      t.resumeKey false = .ok (some ⟨(record "b").fields⟩) := by
  intro record down source cs
  have hend : (calls 3 cs (start source ⟨some 3, some 3⟩ .default .ok)).map
      (fun r => (r.2.phase, r.2.limit, r.2.source.schemas)) =
        some (.failed, ⟨some 3, some 1⟩, [⟨"id", none⟩]) := by decide +kernel
  have htaken : takenOut 3 cs (start source ⟨some 3, some 3⟩ .default .ok) =
      some [record "a", record "b"] := by decide +kernel
  have hkey : keyOfLast ⟨"id", none⟩ [record "a", record "b"] =
      .ok (some ⟨(record "b").fields⟩) := rfl
  obtain ⟨⟨answers, t⟩, hrun, ht⟩ := Option.map_eq_some_iff.1 hend
  simp only [Prod.mk.injEq] at ht
  obtain ⟨hphase, hlimit, hschemas⟩ := ht
  have hschema : PageSource.keySchema t.source = .ok ⟨"id", none⟩ := by
    change t.source.keySchema = _
    rw [Keyed.keySchema, hschemas]
  obtain ⟨u, -, rfl, hfares | ⟨hfails, -, hstays, taken, htaken', hlast⟩⟩ :=
    failure_ends_walk source _ _ _ _ _ hrun
  · exact absurd hphase hfares.alive
  · rw [htaken] at htaken'
    cases htaken'
    refine ⟨answers, _, hrun, ⟨u, hfails⟩, fun fuel => ?_, (hlast _ hschema).trans hkey⟩
    have hanswers := hstays fuel [.ask .next, .ask .nextItem]
    rw [hlimit] at hanswers
    exact hanswers

end Traversal

end CursorPaging
