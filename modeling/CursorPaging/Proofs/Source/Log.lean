import CursorPaging.Proofs.Source.Fetches
import CursorPaging.Proofs.Table.Source

/-!
# Stores that keep a log

A store that keeps a log of its calls shows what a source sends, fetch after fetch.

* `Logged`: a store with the calls made so far and their answers; `PageLog`, `BatchLog`;
* `sentAfter`, `Follows`: each call goes on after the last that succeeded before it;
* `Calling`: a source whose fetches are one call each; **`Calling.afterFetches`**: its log follows
  the answers;
* `hasMore_afterFetches`: until a fetch succeeds a source has as much as at first.
-/

namespace CursorPaging

/-- A store with a log of its calls and their answers. -/
structure Logged (β κ ω : Type) where
  inner : β
  log : List (κ × Except StoreError ω)

/-- A store that logs which page was asked for. -/
abbrev PageLog (β : Type) := Logged β (Request × Option ResumeKey) PageOutput

/-- A store that logs which keys were asked for. -/
abbrev BatchLog (β : Type) := Logged β BatchRequest BatchOutput

namespace Logged

variable {β κ ω : Type}

/-- Nothing called yet. -/
def fresh (store : β) : Logged β κ ω := ⟨store, []⟩

/-- Log a call with the answer of the store. -/
def add (s : Logged β κ ω) (call : κ) (answer : Except StoreError ω × β) :
    Except StoreError ω × Logged β κ ω :=
  (answer.1, ⟨answer.2, s.log ++ [(call, answer.1)]⟩)

instance [Store β] : Store (Logged β κ ω) where
  keySchema s := Store.keySchema s.inner

instance [QueryStore β] : QueryStore (PageLog β) where
  query s q start := s.add (.query q, start) (QueryStore.query s.inner q start)

instance [ScanStore β] : ScanStore (PageLog β) where
  scan s r start := s.add (.scan r, start) (ScanStore.scan s.inner r start)

instance [WalkStore β] : WalkStore (PageLog β) where

instance [BatchStore β] : BatchStore (BatchLog β) where
  batchGet s r := s.add r (BatchStore.batchGet s.inner r)

end Logged

/-! ## Following the answers -/

section Calls

variable {κ ω : Type} {first : κ} {next : ω → κ} {answers : List (Except StoreError ω)}
  {log : List (κ × Except StoreError ω)}

/-- What goes on after the last answer that was no failure, or the first call if there is none. -/
def sentAfter (first : κ) (next : ω → κ) (answers : List (Except StoreError ω)) : κ :=
  ((answers.filterMap Except.toOption).getLast?.map next).getD first

/-- Every call of a log sends what goes on after the answers before it. -/
def Follows (first : κ) (next : ω → κ) (log : List (κ × Except StoreError ω)) : Prop :=
  ∀ before call after, log = before ++ call :: after →
    call.1 = sentAfter first next (before.map (·.2))

theorem sentAfter_concat_ok (output : ω) :
    sentAfter first next (answers ++ [.ok output]) = next output := by
  simp [sentAfter, Except.toOption]

theorem sentAfter_concat_error (e : StoreError) :
    sentAfter first next (answers ++ [.error e]) = sentAfter first next answers := by
  simp [sentAfter, Except.toOption]

theorem follows_nil : Follows first next ([] : List (κ × Except StoreError ω)) :=
  fun before _ _ h => by simp at h

theorem Follows.concat (h : Follows first next log) (answer : Except StoreError ω) :
    Follows first next (log ++ [(sentAfter first next (log.map (·.2)), answer)]) := by
  intro before call after hlog
  rcases List.eq_nil_or_concat after with rfl | ⟨init, last, rfl⟩
  · obtain ⟨rfl, hcall⟩ := List.append_inj' hlog rfl
    obtain ⟨rfl, -⟩ := List.cons.inj hcall
    rfl
  · rw [List.concat_eq_append, ← List.cons_append, ← List.append_assoc] at hlog
    exact h before call init (List.append_inj' hlog rfl).1

end Calls

/-! ## Sources over a log -/

/-- The outcome of a fetch by the answer of the store. -/
def fetched {ω : Type} (page : ω → Page) : Except StoreError ω → Except PagingError Page
  | .ok output => .ok (page output)
  | .error e => .error (.fetch e)

variable {σ κ ω : Type} [PageSource σ]

/-- Each fetch is one call of the store. It sends what the source has next, and an answer without a
failure tells what it has next then. -/
structure Calling (log : σ → List (κ × Except StoreError ω)) (sends : σ → κ) (next : σ → ω → κ)
    (page : ω → Page) : Prop where
  step : ∀ s, ∃ answer, (PageSource.fetchPage s).1 = fetched page answer ∧
    log (PageSource.fetchPage s).2 = log s ++ [(sends s, answer)] ∧
    sends (PageSource.fetchPage s).2 = sentAfter (sends s) (next s) [answer] ∧
    next (PageSource.fetchPage s).2 = next s

/-- What a log holds after some fetches. -/
structure LoggedRun (n : Nat) (s : σ) (log : List (κ × Except StoreError ω)) (first : κ)
    (next : ω → κ) (page : ω → Page) : Prop where
  length : log.length = n
  follows : Follows first next log
  outcomes : firstOutcomes n s = log.map fun call => fetched page call.2

theorem LoggedRun.of_outcomes {ρ : Type} [PageSource ρ] {n : Nat} {s : σ} {u : ρ}
    {log : List (κ × Except StoreError ω)} {first : κ} {next : ω → κ} {page : ω → Page}
    (h : LoggedRun n s log first next page) (hu : firstOutcomes n u = firstOutcomes n s) :
    LoggedRun n u log first next page :=
  ⟨h.length, h.follows, hu.trans h.outcomes⟩

/-- **A run of fetches** over a log that is empty at first is logged, call by call. -/
theorem Calling.afterFetches {log : σ → List (κ × Except StoreError ω)} {sends : σ → κ}
    {next : σ → ω → κ} {page : ω → Page} (h : Calling log sends next page) {s : σ}
    (hs : log s = []) (n : Nat) :
    LoggedRun n s (log (afterFetches n s)) (sends s) (next s) page ∧
      sends (afterFetches n s) =
        sentAfter (sends s) (next s) ((log (afterFetches n s)).map (·.2)) ∧
      next (afterFetches n s) = next s := by
  induction n with
  | zero =>
    change LoggedRun 0 s (log s) (sends s) (next s) page ∧
      sends s = sentAfter _ _ ((log s).map _) ∧ next s = next s
    rw [hs]
    exact ⟨⟨rfl, follows_nil, rfl⟩, rfl, rfl⟩
  | succ n ih =>
    obtain ⟨⟨hlength, hfollows, houtcomes⟩, hsends, hkept⟩ := ih
    obtain ⟨answer, hfetch, hlog, hnext, hstays⟩ := h.step (CursorPaging.afterFetches n s)
    rw [afterFetches_succ, hlog, hnext, hstays, hkept]
    refine ⟨⟨?_, ?_, ?_⟩, ?_, rfl⟩
    · rw [List.length_append, hlength, List.length_singleton]
    · rw [hsends]
      exact hfollows.concat answer
    · rw [firstOutcomes_succ, houtcomes, outcomeAfter, hfetch, List.map_append]
      rfl
    · rw [List.map_append, List.map_singleton]
      cases answer with
      | ok output => rw [sentAfter_concat_ok]; rfl
      | error e => rw [sentAfter_concat_error, ← hsends]; rfl

theorem hasMore_afterFetches
    (h : ∀ (s u : σ) (e : PagingError), PageSource.fetchPage s = (.error e, u) →
      PageSource.hasMore u = PageSource.hasMore s) {s : σ} {n : Nat} (hnone : firstPages n s = []) :
    PageSource.hasMore (afterFetches n s) = PageSource.hasMore s := by
  induction n with
  | zero => rfl
  | succ n ih =>
    rw [firstPages, firstOutcomes_succ, List.filterMap_append, List.append_eq_nil_iff] at hnone
    obtain ⟨hbefore, hlast⟩ := hnone
    rw [afterFetches_succ]
    rcases hfetch : PageSource.fetchPage (afterFetches n s) with ⟨outcome, u⟩
    cases outcome with
    | ok page => simp [outcomeAfter, hfetch, Except.toOption] at hlast
    | error e => rw [h _ _ e hfetch, ih hbefore]

theorem firstOutcomes_of_map {ρ : Type} [PageSource ρ] (f : ρ → σ)
    (h : ∀ s, PageSource.fetchPage (f s) =
      ((PageSource.fetchPage s).1, f (PageSource.fetchPage s).2)) (n : Nat) (s : ρ) :
    afterFetches n (f s) = f (afterFetches n s) ∧
      firstOutcomes n (f s) = firstOutcomes n s := by
  induction n with
  | zero => exact ⟨rfl, rfl⟩
  | succ n ih =>
    obtain ⟨hafter, houtcomes⟩ := ih
    rw [afterFetches_succ, afterFetches_succ, firstOutcomes_succ, firstOutcomes_succ, houtcomes,
      outcomeAfter, outcomeAfter, hafter, h]
    exact ⟨rfl, rfl⟩

end CursorPaging
