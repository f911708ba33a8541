import CursorPaging.Proofs.Traversal.Ending
import CursorPaging.Proofs.Traversal.Served
import CursorPaging.Proofs.Traversal.Yields

/-!
# Steady sources

A source whose fetches never fail and which goes by the continuations of its pages. Looking ahead
over such a source twice tells and leaves the same as looking once.

* `Leads`, `Steady`: such a source, now and after any fetches; `Serves.steady`, `Yields.steady`:
  sources that give their pages without a failure, `Yields.exists_serves`;
* `KeysKept`: fetches leave the key layout; `keysKept_of_fetch`, and the sources over stores;
* `Fetches.steady`, `LooksAhead.steady`: what a look does over a steady source;
* **`lookAhead_again`**: looking twice is looking once;
* `calls_leads`: calls do nothing to a source but fetch.
-/

namespace CursorPaging

open Relation

section Sources

variable {σ : Type} [PageSource σ]

/-- A source is led to another by a fetch, which is made only while there is more. -/
def Leads (s u : σ) : Prop := PageSource.hasMore s = true ∧ (PageSource.fetchPage s).2 = u

/-- A source whose fetches never fail, and which has more after each exactly if the continuation of
the page says so. -/
def Steady (source : σ) : Prop :=
  ∀ s, ReflTransGen Leads source s → PageSource.hasMore s = true →
    ∃ page u, PageSource.fetchPage s = (.ok page, u) ∧
      PageSource.hasMore u = page.continuation.isMore

/-- A source that is of the same kind and tells the same key layout after any fetches. -/
def KeysKept (source : σ) : Prop :=
  ∀ s, ReflTransGen Leads source s → PageSource.kind s = PageSource.kind source ∧
    PageSource.keySchema s = PageSource.keySchema source

variable {s u : σ}

theorem Steady.of_leads (h : Steady s) (hleads : ReflTransGen Leads s u) : Steady u :=
  fun v hv => h v (hleads.trans hv)

theorem Steady.fetch (h : Steady s) (hmore : PageSource.hasMore s = true)
    {outcome : Except PagingError Page} (hfetch : PageSource.fetchPage s = (outcome, u)) :
    ∃ page, outcome = .ok page ∧ PageSource.hasMore u = page.continuation.isMore ∧ Steady u := by
  obtain ⟨page, v, hpage, hcontinues⟩ := h s .refl hmore
  obtain ⟨rfl, rfl⟩ := Prod.mk.inj (hfetch.symm.trans hpage)
  exact ⟨page, rfl, hcontinues, h.of_leads (.single ⟨hmore, congrArg Prod.snd hfetch⟩)⟩

theorem Serves.steady {pages : List Page} {failure : Option PagingError}
    (h : Serves s pages failure u) (hnone : failure = none) : Steady s := by
  induction h with
  | dry more =>
    intro v hv hmore
    rcases hv.cases_head with rfl | ⟨w, hleads, -⟩
    · rw [more] at hmore
      cases hmore
    · rw [Leads, more] at hleads
      cases hleads.1
  | failure => cases hnone
  | page more fetch continues rest ih =>
    intro v hv hmore
    rcases hv.cases_head with rfl | ⟨w, hleads, hlater⟩
    · exact ⟨_, _, fetch, continues⟩
    · rw [Leads, fetch] at hleads
      obtain ⟨-, rfl⟩ := hleads
      exact ih hnone v hlater hmore

theorem Yields.exists_serves {schema : KeySchema} {n : Nat} {records : List Record}
    (h : Yields schema n s records) :
    ∃ pages u, Serves s pages none u ∧ pages.length = n ∧
      pages.flatMap (·.records) = records := by
  induction h with
  | dry keySchema more => exact ⟨[], _, .dry more, rfl, rfl⟩
  | page keySchema more fetch continues rest ih =>
    obtain ⟨pages, u, hserves, hlength, hrecords⟩ := ih
    exact ⟨_ :: pages, u, .page more fetch continues hserves, congrArg Nat.succ hlength,
      by rw [List.flatMap_cons, hrecords]⟩

theorem Yields.steady {schema : KeySchema} {n : Nat} {records : List Record}
    (h : Yields schema n s records) : Steady s := by
  obtain ⟨pages, u, hserves, -, -⟩ := h.exists_serves
  exact hserves.steady rfl

/-! ## Key layouts -/

theorem keysKept_of_fetch (h : ∀ s : σ, PageSource.kind (PageSource.fetchPage s).2 =
    PageSource.kind s ∧ PageSource.keySchema (PageSource.fetchPage s).2 = PageSource.keySchema s)
    (source : σ) : KeysKept source := by
  intro s hs
  induction hs with
  | refl => exact ⟨rfl, rfl⟩
  | tail _ hleads ih =>
    obtain ⟨-, rfl⟩ := hleads
    exact ⟨(h _).1.trans ih.1, (h _).2.trans ih.2⟩

end Sources

theorem QuerySource.keySchema_fetchPage {β : Type} [QueryStore β] (s : QuerySource β) :
    PageSource.keySchema (PageSource.fetchPage s).2 = PageSource.keySchema s := by
  change Except.ok (QuerySource.fetchPage s).2.cursor.schema = _
  unfold QuerySource.fetchPage
  split <;> rfl

theorem ScanSource.keySchema_fetchPage {β : Type} [ScanStore β] (s : ScanSource β) :
    PageSource.keySchema (PageSource.fetchPage s).2 = PageSource.keySchema s := by
  change Except.ok (ScanSource.fetchPage s).2.cursor.schema = _
  unfold ScanSource.fetchPage
  split <;> rfl

theorem QuerySource.keysKept {β : Type} [QueryStore β] : ∀ s : QuerySource β, KeysKept s :=
  keysKept_of_fetch fun s => ⟨rfl, s.keySchema_fetchPage⟩

theorem ScanSource.keysKept {β : Type} [ScanStore β] : ∀ s : ScanSource β, KeysKept s :=
  keysKept_of_fetch fun s => ⟨rfl, s.keySchema_fetchPage⟩

theorem BatchSource.keysKept {β : Type} [BatchStore β] : ∀ s : BatchSource β, KeysKept s :=
  keysKept_of_fetch fun _ => ⟨rfl, rfl⟩

/-! ## Looking ahead -/

namespace Traversal

variable {σ α : Type} [PageSource σ] {fuel : Nat} {t u : Traversal σ α}
  {r : Except PagingError Bool}

theorem Fetches.steady (h : Fetches fuel t r u) (hsteady : Steady t.source)
    (hbuffer : t.buffer = []) :
    Steady u.source ∧ ∃ found, r = .ok found ∧ (found = false → u.Spent) := by
  induction h with
  | dry more => exact ⟨hsteady, false, rfl, fun _ => ⟨hbuffer, more⟩⟩
  | failure more fetch =>
    obtain ⟨page, hpage, -⟩ := hsteady.fetch more fetch
    cases hpage
  | found more fetch records =>
    obtain ⟨page, -, -, hlater⟩ := hsteady.fetch more fetch
    exact ⟨hlater, true, rfl, fun h => nomatch h⟩
  | last more fetch records done =>
    obtain ⟨page, hpage, hcontinues, hlater⟩ := hsteady.fetch more fetch
    cases hpage
    exact ⟨hlater, false, rfl, fun _ => ⟨hbuffer, hcontinues.trans done⟩⟩
  | skip more fetch records continues rest ih =>
    obtain ⟨page, -, -, hlater⟩ := hsteady.fetch more fetch
    exact ih hlater hbuffer

/-- **A look ahead over a steady source** tells whether a record is left; if not, nothing is. -/
theorem LooksAhead.steady (h : LooksAhead fuel t r u) (hsteady : Steady t.source) :
    Steady u.source ∧ ∃ found, r = .ok found ∧ (found = false → u.Spent) := by
  cases h with
  | buffered buffer => exact ⟨hsteady, true, rfl, fun h => nomatch h⟩
  | past buffer phase fetches => exact fetches.steady hsteady buffer
  | ahead buffer phase fetches => exact fetches.steady hsteady buffer

/-- What a look tells and leaves, but for the limit and the phase. -/
def unmarked (r : Except PagingError Bool × Traversal σ α) :
    Except PagingError Bool × Traversal σ α :=
  (r.1, r.2.mark .unbounded .fresh)

theorem lookAhead_unmarked (l : Limit) (p : Phase) (fuel : Nat) (t : Traversal σ α) :
    ((t.mark l p).lookAhead fuel).map unmarked = (t.lookAhead fuel).map unmarked :=
  lookAhead_mark l .unbounded p (fun _ => .fresh) fuel t

/-- **Looking twice is looking once.** -/
theorem lookAhead_again (h : t.lookAhead fuel = some (r, u)) (hsteady : Steady t.source) :
    (u.lookAhead fuel).map unmarked = (t.lookAhead fuel).map unmarked := by
  obtain ⟨-, found, rfl, hspent⟩ := (looksAhead_of_eq h).steady hsteady
  rw [h]
  -- what was found is in the buffer, and where nothing was found nothing is left to fetch
  cases found with
  | false => rw [lookAhead_of_spent (hspent rfl)]; rfl
  | true =>
    obtain ⟨record, rest, hbuffer⟩ := buffer_of_lookAhead h
    rw [lookAhead_of_ne_nil (hbuffer ▸ List.cons_ne_nil record rest)]

/-! ## Calls -/

theorem Look.leads {source : σ} (h : Look t u) (ht : ReflTransGen Leads source t.source) :
    ReflTransGen Leads source u.source := by
  cases h with
  | phase => exact ht
  | page more fetch => exact ht.tail ⟨more, congrArg Prod.snd fetch⟩
  | failure more fetch => exact ht.tail ⟨more, congrArg Prod.snd fetch⟩

/-- **Calls do nothing to a source but fetch.** -/
theorem calls_leads {cs : List Call} {answers : List (Answer α)}
    (h : calls fuel cs t = some (answers, u)) : ReflTransGen Leads t.source u.source :=
  calls_keeps (P := fun v => ReflTransGen Leads t.source v.source) Look.leads
    (fun _ hv => hv) h .refl

end Traversal

end CursorPaging
