import Mathlib.Logic.Function.Iterate
import CursorPaging.Proofs.Traversal.Conservation

/-!
# Fetches from a source

What a source gives when it is fetched from again and again, whether it says to have more or not.

* `afterFetches`: the source after some fetches; `outcomeAfter`, `firstOutcomes`, `firstPages`: what
  they bring;
* `Watched.Tracks`: a watched source has seen the first outcomes of the source that it watches;
  **`calls_tracks`**: calls keep it.
-/

namespace CursorPaging

section Source

variable {σ : Type} [PageSource σ]

/-- A source after some fetches. -/
def afterFetches (n : Nat) (s : σ) : σ := (fun s => (PageSource.fetchPage s).2)^[n] s

/-- What a source gives when it is fetched from once more after some fetches. -/
def outcomeAfter (n : Nat) (s : σ) : Except PagingError Page :=
  (PageSource.fetchPage (afterFetches n s)).1

/-- The outcomes of the first fetches from a source. -/
def firstOutcomes (n : Nat) (s : σ) : List (Except PagingError Page) :=
  (List.range n).map (outcomeAfter · s)

/-- The pages among them. -/
def firstPages (n : Nat) (s : σ) : List Page := (firstOutcomes n s).filterMap Except.toOption

@[simp] theorem afterFetches_zero (s : σ) : afterFetches 0 s = s := rfl

theorem afterFetches_succ (n : Nat) (s : σ) :
    afterFetches (n + 1) s = (PageSource.fetchPage (afterFetches n s)).2 :=
  Function.iterate_succ_apply' _ n s

theorem afterFetches_of_fetch {s u : σ} {outcome : Except PagingError Page}
    (h : PageSource.fetchPage s = (outcome, u)) (n : Nat) :
    afterFetches (n + 1) s = afterFetches n u := by
  rw [afterFetches, Function.iterate_succ_apply, h]
  rfl

theorem firstOutcomes_succ (n : Nat) (s : σ) :
    firstOutcomes (n + 1) s = firstOutcomes n s ++ [outcomeAfter n s] := by
  rw [firstOutcomes, List.range_succ, List.map_append]
  rfl

@[simp] theorem length_firstOutcomes (n : Nat) (s : σ) : (firstOutcomes n s).length = n := by
  rw [firstOutcomes, List.length_map, List.length_range]

theorem take_firstOutcomes {p n : Nat} (h : p ≤ n) (s : σ) :
    (firstOutcomes n s).take p = firstOutcomes p s := by
  rw [firstOutcomes, firstOutcomes, ← List.map_take, List.take_range, Nat.min_eq_left h]

theorem firstPages_mono {p n : Nat} (h : p ≤ n) (s : σ) : firstPages p s <+: firstPages n s := by
  rw [firstPages, firstPages, ← take_firstOutcomes h]
  exact (List.take_prefix p _).filterMap _

end Source

/-! ## Watched sources -/

namespace Watched

variable {σ : Type} [PageSource σ]

/-- What a watched source has seen are the first outcomes of the source that it watches from the
start. -/
structure Tracks (source : σ) (s : Watched σ) : Prop where
  inner : s.inner = afterFetches s.outcomes.length source
  outcomes : s.outcomes = firstOutcomes s.outcomes.length source

theorem tracks_start (source : σ) : Tracks source (fromStart source) := ⟨rfl, rfl⟩

theorem tracks_fetch {source : σ} {s : Watched σ} (h : Tracks source s) :
    Tracks source (PageSource.fetchPage s).2 := by
  have hfetch : (PageSource.fetchPage s).2 = ⟨afterFetches (s.outcomes.length + 1) source,
      firstOutcomes (s.outcomes.length + 1) source⟩ := by
    rw [afterFetches_succ, firstOutcomes_succ, outcomeAfter, ← h.inner, ← h.outcomes]
    rfl
  rw [hfetch]
  exact ⟨by rw [length_firstOutcomes], by rw [length_firstOutcomes]⟩

end Watched

namespace Traversal

variable {σ α : Type} [PageSource σ] {source : σ} {fuel : Nat} {t u : Traversal (Watched σ) α}

theorem Look.tracks (h : Look t u) (ht : t.source.Tracks source) : u.source.Tracks source := by
  cases h with
  | phase => exact ht
  | page more fetch =>
    have hfetched := Watched.tracks_fetch ht
    rw [fetch] at hfetched
    exact hfetched
  | failure more fetch =>
    have hfetched := Watched.tracks_fetch ht
    rw [fetch] at hfetched
    exact hfetched

/-- **Calls on a watched walk** see the outcomes of its source one by one. -/
theorem calls_tracks {cs : List Call} {answers : List (Answer α)}
    (h : calls fuel cs t = some (answers, u)) (ht : t.source.Tracks source) :
    u.source.Tracks source :=
  calls_keeps (P := fun v => v.source.Tracks source) Look.tracks (fun _ hv => hv) h ht

end Traversal

end CursorPaging
