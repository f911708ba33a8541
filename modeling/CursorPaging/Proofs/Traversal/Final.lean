import CursorPaging.Proofs.Traversal.Conservation
import CursorPaging.Proofs.Traversal.Ending

/-!
# When exhaustion is final

An exhausted walk looks again when it is asked again. It stays as it is, without another fetch,
exactly if its source has no more. A source that goes by the continuations of its pages then has no
more; any other may have been left after an empty page that pointed nowhere, and go on.

* `Ask.atEnd`: the answers of an exhausted walk; `ask_of_exhausted`: it gives them if nothing is
  left;
* `drained_of_calls`: what calls leave when a walk is exhausted;
* **`exhaustion_final_iff`**: when that is final; `exhaustion_final_of_truthful`: when it always is.
-/

namespace CursorPaging

/-- The answer of an exhausted walk with some limit. -/
def Ask.atEnd {α : Type} (limit : Limit) : Ask → Answer α
  | .hasNext => .found (.ok false)
  | .nextItem => .item (.error (.misuse .nothingLeft))
  | .next => .pulled none
  | .hasResultsPastLimit => .found (if limit.isBounded then .ok false else .error .noLimit)

namespace Traversal

variable {σ α : Type} [PageSource σ] {fuel : Nat} {t : Traversal σ α} {source : σ} {limit : Limit}
  {codec : PositionCodec} {m : Record → Except PagingError α} {cs : List Call}
  {answers : List (Answer α)}

/-! ## Nothing left -/

theorem hasNext_of_exhausted (fuel : Nat) (hphase : t.phase = .exhausted) (hspent : t.Spent)
    (hopen : t.limit.isReached = false) : t.hasNext fuel = some (.ok false, t) := by
  have hsame : t.mark t.limit .exhausted = t := by rw [← hphase, mark_self]
  rw [hasNext_of_open (by rw [hphase]; decide) hopen, lookAhead_of_spent hspent, Option.map_some,
    mark_mark, foundPhase, hsame]

/-- **If nothing is left**, an exhausted walk stays as it is. -/
theorem ask_of_exhausted (fuel : Nat) (hphase : t.phase = .exhausted) (hspent : t.Spent)
    (hopen : t.limit.isReached = false) (ask : Ask) :
    t.ask fuel ask = some (ask.atEnd t.limit, t) := by
  have hnext := hasNext_of_exhausted fuel hphase hspent hopen
  have halive : t.phase ≠ .failed := by rw [hphase]; decide
  cases ask with
  | hasNext => rw [Traversal.ask, hnext]; rfl
  | nextItem => rw [Traversal.ask, nextItem, hopen, hnext]; rfl
  | next => rw [Traversal.ask, next, if_neg halive, hnext]; rfl
  | hasResultsPastLimit =>
    rw [Traversal.ask, hasResultsPastLimit, hopen, hnext, Ask.atEnd]
    cases t.limit.isBounded <;> rfl

/-! ## Calls -/

theorem drained_of_calls (h : calls fuel cs (start source limit codec m) = some (answers, t))
    (hphase : t.phase = .exhausted) : t.Drained ∧ t.limit.isReached = false := by
  refine calls_keeps_left (P := fun t => t.phase = .exhausted → t.Drained ∧
    t.limit.isReached = false) (fun hleaves ht hphase => ?_) h (nomatch ·) hphase
  obtain rfl | hdrained := hleaves.exhausted hphase
  · exact ht hphase
  · exact hdrained

/-- **When exhaustion is final.** No later call changes an exhausted walk or fetches exactly if the
source has no more; and if it has, the last page was empty and pointed nowhere. -/
theorem exhaustion_final_iff
    (h : calls fuel cs (start source limit codec m) = some (answers, t))
    (hphase : t.phase = .exhausted) :
    t.limit.isReached = false ∧
    ((∀ fuel later, calls fuel later t = some (later.map (t.standing (Ask.atEnd t.limit)), t)) ↔
      PageSource.hasMore t.source = false) ∧
    (PageSource.hasMore t.source = true → AfterLast t.source) := by
  obtain ⟨hdrained, hopen⟩ := drained_of_calls h hphase
  refine ⟨hopen, ⟨fun hfinal => ?_, fun hmore fuel later => ?_⟩, fun hmore => ?_⟩
  · -- a look that must not fetch comes back only if there is nothing to fetch
    refine Bool.eq_false_iff.2 fun hmore => ?_
    have hask := hfinal 0 [.ask .hasNext]
    have hstuck : t.hasNext 0 = none := by
      rw [hasNext_of_open (by rw [hphase]; decide) hopen, lookAhead_of_nil hdrained.buffer,
        fetchRecords_mark]
      unfold fetchRecords
      rw [if_pos hmore]
      rfl
    simp [calls, call, ask, hstuck] at hask
  · exact calls_of_standing (ask_of_exhausted fuel hphase ⟨hdrained.buffer, hmore⟩ hopen) later
  · exact hdrained.source.resolve_left (by rw [hmore]; decide)

/-- The only page has one record, the limit is two, and the second question finds nothing. -/
theorem exhaustion_final_after_one_page :
    let script : Script := ⟨[.ok ⟨[default], .done⟩], .scan⟩
    ∃ answers t, calls 1 [.ask .next, .ask .hasNext] (start script ⟨some 2, some 2⟩ .default .ok) =
        some (answers, t) ∧ t.phase = .exhausted ∧
      ∀ fuel later,
        calls fuel later t = some (later.map (t.standing (Ask.atEnd ⟨some 2, some 1⟩)), t) := by
  intro script
  have hend : (calls 1 [.ask .next, .ask .hasNext] (start script ⟨some 2, some 2⟩ .default .ok)).map
      (fun r => (r.2.phase, r.2.limit, PageSource.hasMore r.2.source)) =
        some (.exhausted, ⟨some 2, some 1⟩, false) := by decide +kernel
  obtain ⟨⟨answers, t⟩, hrun, ht⟩ := Option.map_eq_some_iff.1 hend
  obtain ⟨hphase, hleft⟩ := Prod.mk.inj ht
  obtain ⟨hlimit, hmore⟩ := Prod.mk.inj hleft
  have hfinal := (exhaustion_final_iff hrun hphase).2.1.2 hmore
  rw [hlimit] at hfinal
  exact ⟨answers, t, hrun, hphase, hfinal⟩

/-- A source that has more after an empty page that points nowhere: the same question once more
finds a record. -/
theorem exhaustion_not_final :
    let script : Script := ⟨[.ok .empty, .ok ⟨[default], .done⟩], .scan⟩
    ∃ t u, calls 1 [.ask .hasNext] (start script .unbounded .default .ok) =
        some ([.found (.ok false)], t) ∧ t.phase = .exhausted ∧ t.limit.isReached = false ∧
      t.hasNext 1 = some (.ok true, u) ∧ u.phase = .buffering ∧ u.pages = t.pages + 1 := by
  intro script
  exact ⟨_, _, rfl, rfl, rfl, rfl, rfl, rfl⟩

/-- **Exhaustion is final** over a source that goes by the continuations of its pages. -/
theorem exhaustion_final_of_truthful (hlaw : Truthful σ)
    (h : calls fuel cs (start source limit codec m) = some (answers, t))
    (hphase : t.phase = .exhausted) (later : List Call) :
    calls fuel later t = some (later.map (t.standing (Ask.atEnd t.limit)), t) := by
  obtain ⟨hdrained, hopen⟩ := drained_of_calls h hphase
  exact calls_of_standing (ask_of_exhausted fuel hphase (hdrained.spent hlaw) hopen) later

end Traversal

end CursorPaging
