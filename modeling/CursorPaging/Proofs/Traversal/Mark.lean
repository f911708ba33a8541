import CursorPaging.Proofs.Traversal.Calls

/-!
# Limits and phases do not matter to a look

A look ahead reads neither the limit nor the phase of a walk. So all questions that come to a look
answer alike on walks that differ in these only, and differ in what they mark the walk with.

* `Traversal.mark`: a walk with another limit and phase; `endPhase`, `foundPhase`: the phases that
  questions leave;
* `fetchRecords_mark`, **`lookAhead_mark`**;
* **`hasNext_mark`**, **`hasResultsPastLimit_mark`**: both questions as one look;
* `encodePosition_congr`: when two walks have the same position.
-/

namespace CursorPaging

namespace Traversal

variable {σ α : Type}

/-- The walk with another limit and phase. -/
def mark (limit : Limit) (phase : Phase) (t : Traversal σ α) : Traversal σ α :=
  { t with limit, phase }

@[simp] theorem mark_mark (l l' : Limit) (p p' : Phase) (t : Traversal σ α) :
    (t.mark l p).mark l' p' = t.mark l' p' := rfl

@[simp] theorem mark_self (t : Traversal σ α) : t.mark t.limit t.phase = t := rfl

/-- A phase that a failed fetch puts an end to. -/
def endPhase (phase : Phase) : Except PagingError Bool → Phase
  | .error _ => .failed
  | .ok _ => phase

/-- The phase of a walk that has told whether something is left. -/
def foundPhase : Except PagingError Bool → Phase
  | .error _ => .failed
  | .ok true => .buffering
  | .ok false => .exhausted

variable [PageSource σ]

/-! ## Looking ahead -/

theorem fetchRecords_mark (l : Limit) (p : Phase) : ∀ (fuel : Nat) (t : Traversal σ α),
    fetchRecords fuel (t.mark l p) =
      (fetchRecords fuel t).map fun r => (r.1, r.2.mark l (endPhase p r.1))
  | fuel, t => by
    have hsource : (t.mark l p).source = t.source := rfl
    unfold fetchRecords
    rw [hsource]
    split_ifs with hm
    · cases fuel with
      | zero => rfl
      | succ fuel =>
        rcases PageSource.fetchPage t.source with ⟨e | page, s⟩
        · rfl
        · dsimp only
          split_ifs
          · rfl
          · exact fetchRecords_mark l p fuel { t with source := s, pages := t.pages + 1 }
          · rfl
    · rfl

/-- The phase in which a look fetches. -/
def lookPhase (phase : Phase) : Phase :=
  if phase = .limitReached then .limitReached else .lookingAhead

theorem lookAhead_of_nil {fuel : Nat} {t : Traversal σ α} (h : t.buffer = []) :
    t.lookAhead fuel = fetchRecords fuel (t.mark t.limit (lookPhase t.phase)) := by
  have hnone : t.buffer.isEmpty = true := by simpa using h
  rw [lookAhead, hnone, lookPhase]
  simp only [Bool.not_true, Bool.false_eq_true, if_false]
  split_ifs with hphase
  · rw [← hphase, mark_self]
  · rfl

theorem lookAhead_of_ne_nil {fuel : Nat} {t : Traversal σ α} (h : t.buffer ≠ []) :
    t.lookAhead fuel = some (.ok true, t) := by
  have hsome : t.buffer.isEmpty = false := by simpa using h
  rw [lookAhead, hsome]
  rfl

theorem lookAhead_mark (l l' : Limit) (p : Phase) (f : Except PagingError Bool → Phase)
    (fuel : Nat) (t : Traversal σ α) :
    ((t.mark l p).lookAhead fuel).map (fun r => (r.1, r.2.mark l' (f r.1))) =
      (t.lookAhead fuel).map fun r => (r.1, r.2.mark l' (f r.1)) := by
  by_cases hbuffer : t.buffer = []
  · rw [lookAhead_of_nil hbuffer, lookAhead_of_nil (show (t.mark l p).buffer = [] from hbuffer),
      mark_mark, fetchRecords_mark, fetchRecords_mark, Option.map_map, Option.map_map]
    rfl
  · rw [lookAhead_of_ne_nil hbuffer,
      lookAhead_of_ne_nil (show (t.mark l p).buffer ≠ [] from hbuffer)]
    rfl

theorem phase_of_lookAhead_error {fuel : Nat} {t u : Traversal σ α} {e : PagingError}
    (h : t.lookAhead fuel = some (.error e, u)) : u.phase = .failed := by
  by_cases hbuffer : t.buffer = []
  · rw [lookAhead_of_nil hbuffer, fetchRecords_mark] at h
    obtain ⟨⟨r, v⟩, -, heq⟩ := Option.map_eq_some_iff.1 h
    obtain ⟨rfl, rfl⟩ := Prod.mk.inj heq
    rfl
  · rw [lookAhead_of_ne_nil hbuffer] at h
    cases h

theorem buffer_of_lookAhead {fuel : Nat} {t u : Traversal σ α}
    (h : t.lookAhead fuel = some (.ok true, u)) : ∃ record rest, u.buffer = record :: rest := by
  refine List.exists_cons_of_ne_nil ?_
  cases looksAhead_of_eq h with
  | buffered buffer => exact buffer
  | past buffer phase fetches => exact fetches.buffer_ne_nil rfl
  | ahead buffer phase fetches => exact fetches.buffer_ne_nil rfl

theorem Looks.kept {t u : Traversal σ α} (h : Looks t u) :
    u.limit = t.limit ∧ u.lastExamined = t.lastExamined ∧ u.codec = t.codec ∧
      u.materialize = t.materialize := by
  refine h.keeps (P := fun v => v.limit = t.limit ∧ v.lastExamined = t.lastExamined ∧
    v.codec = t.codec ∧ v.materialize = t.materialize) ?_ ⟨rfl, rfl, rfl, rfl⟩
  intro v w hlook hv
  cases hlook <;> exact hv

theorem Takes.kept {t u : Traversal σ α} {record : Record} (h : Takes t record u) :
    u.limit = t.limit.consume ∧ u.lastExamined = some record ∧ u.codec = t.codec ∧
      u.materialize = t.materialize := by
  obtain ⟨v, rest, hlooks, -, -, rfl⟩ := h
  obtain ⟨hlimit, -, hcodec, hmaterialize⟩ := hlooks.kept
  exact ⟨congrArg Limit.consume hlimit, rfl, hcodec, hmaterialize⟩

/-! ## Questions -/

theorem hasNext_of_open {fuel : Nat} {t : Traversal σ α} (halive : t.phase ≠ .failed)
    (hopen : t.limit.isReached = false) :
    t.hasNext fuel = (t.lookAhead fuel).map fun r => (r.1, r.2.mark t.limit (foundPhase r.1)) := by
  rw [hasNext, if_neg halive, hopen]
  rcases hlook : t.lookAhead fuel with _ | ⟨e | _ | _, u⟩
  · rfl
  · have hphase := phase_of_lookAhead_error hlook
    have hlimit := (looksAhead_of_eq hlook).limit
    simp only [Bool.false_eq_true, if_false, Option.map_some, foundPhase, ← hphase, ← hlimit,
      mark_self]
  · have hlimit := (looksAhead_of_eq hlook).limit
    simp only [Option.map_some, ← hlimit]
    rfl
  · have hlimit := (looksAhead_of_eq hlook).limit
    simp only [Option.map_some, ← hlimit]
    rfl

theorem hasNext_mark {l : Limit} {p : Phase} (halive : p ≠ .failed) (hopen : l.isReached = false)
    (fuel : Nat) (t : Traversal σ α) :
    (t.mark l p).hasNext fuel =
      (t.lookAhead fuel).map fun r => (r.1, r.2.mark l (foundPhase r.1)) :=
  (hasNext_of_open (t := t.mark l p) halive hopen).trans (lookAhead_mark l l p foundPhase fuel t)

theorem hasResultsPastLimit_mark {l : Limit} {p : Phase} (halive : p ≠ .failed)
    (hbounded : l.isBounded = true) (hreached : l.isReached = true) (fuel : Nat)
    (t : Traversal σ α) :
    (t.mark l p).hasResultsPastLimit fuel =
      (t.lookAhead fuel).map fun r => (r.1, r.2.mark l (endPhase .limitReached r.1)) := by
  have hlimit : (t.mark l p).limit = l := rfl
  have hphase : (t.mark l p).phase = p := rfl
  have hpast : (t.mark l p).hasResultsPastLimit fuel = (t.mark l .limitReached).lookAhead fuel := by
    rw [hasResultsPastLimit, hlimit, hphase, hbounded, hreached, if_neg (by decide),
      if_neg (by decide), if_neg halive]
    rfl
  rw [hpast]
  by_cases hbuffer : t.buffer = []
  · rw [lookAhead_of_nil hbuffer,
      lookAhead_of_nil (show (t.mark l .limitReached).buffer = [] from hbuffer), mark_mark,
      fetchRecords_mark, fetchRecords_mark, Option.map_map]
    rfl
  · rw [lookAhead_of_ne_nil hbuffer,
      lookAhead_of_ne_nil (show (t.mark l .limitReached).buffer ≠ [] from hbuffer)]
    rfl

/-! ## Positions -/

/-- Positions go by the last record handed out and by what the source tells, unless a walk is
exhausted. -/
theorem encodePosition_congr {t u : Traversal σ α} {removeHashKey : Bool}
    (hkind : removeHashKey = true → PageSource.kind t.source = PageSource.kind u.source)
    (hschema : PageSource.keySchema t.source = PageSource.keySchema u.source)
    (hphase : t.phase = .exhausted ↔ u.phase = .exhausted)
    (hlast : t.lastExamined = u.lastExamined) (hcodec : t.codec = u.codec) :
    t.encodePosition removeHashKey = u.encodePosition removeHashKey := by
  have hkey (schema : KeySchema) : t.currentKey schema = u.currentKey schema := by
    simp only [currentKey, hphase, hlast]
  cases removeHashKey with
  | false => simp only [encodePosition, resumeKey, hschema, hkey, hcodec]; rfl
  | true =>
    simp only [encodePosition, resumeKey, checkRemoveHashKey, hkind rfl, hschema, hkey, hcodec]

end Traversal

end CursorPaging
