import Mathlib.Logic.Relation
import CursorPaging.Proofs.Traversal.Runs

/-!
# What a call can do

Every call is a series of looks: a fetch puts the records of a page behind the buffer, and the phase
may change. Only a call for a result goes on to hand out the first record of the buffer, and only
while the limit leaves something.

* `Look`, `Looks`: one look and a series of them; `Takes`: a record that is handed out;
* `HasNext.looks`, `PastLimit.looks`: questions only look;
* **`NextItem.looks_or_takes`**, **`Next.looks_or_takes`**: a call for a result looks and may hand
  out one record.
-/

namespace CursorPaging

namespace Traversal

variable {σ α : Type} [PageSource σ] {fuel : Nat} {t u : Traversal σ α}

/-- One look: a change of phase, or a fetch, which may fail. -/
inductive Look : Traversal σ α → Traversal σ α → Prop
  | phase (t : Traversal σ α) (phase : Phase) : Look t { t with phase }
  | page {t : Traversal σ α} {page : Page} {source : σ} (more : PageSource.hasMore t.source = true)
      (fetch : PageSource.fetchPage t.source = (.ok page, source)) :
      Look t { t with source, pages := t.pages + 1, buffer := t.buffer ++ page.records }
  | failure {t : Traversal σ α} {e : PagingError} {source : σ}
      (more : PageSource.hasMore t.source = true)
      (fetch : PageSource.fetchPage t.source = (.error e, source)) :
      Look t { t with source }

/-- A series of looks. -/
abbrev Looks : Traversal σ α → Traversal σ α → Prop := Relation.ReflTransGen Look

/-- A record is handed out: after some looks, the first of the buffer, while the limit leaves
something. -/
def Takes (t : Traversal σ α) (record : Record) (u : Traversal σ α) : Prop :=
  ∃ v rest, Looks t v ∧ v.buffer = record :: rest ∧ v.limit.isReached = false ∧
    u = v.take record rest

theorem Looks.keeps {P : Traversal σ α → Prop} (hlook : ∀ {t u}, Look t u → P t → P u)
    (h : Looks t u) (ht : P t) : P u := by
  induction h with
  | refl => exact ht
  | tail _ hstep ih => exact hlook hstep ih

theorem Looks.single (h : Look t u) : Looks t u := Relation.ReflTransGen.single h

theorem Looks.phase (h : Looks t u) (phase : Phase) : Looks t { u with phase } :=
  h.tail (.phase u phase)

theorem Look.materialize (h : Look t u) : u.materialize = t.materialize := by cases h <;> rfl

theorem Looks.materialize (h : Looks t u) : u.materialize = t.materialize :=
  h.keeps (P := fun v => v.materialize = t.materialize)
    (fun hlook hv => hlook.materialize.trans hv) rfl

/-! ## Questions -/

theorem Look.emptyPage {page : Page} {source : σ} (hmore : PageSource.hasMore t.source = true)
    (hfetch : PageSource.fetchPage t.source = (.ok page, source)) (hrecords : page.records = []) :
    Look t { t with source, pages := t.pages + 1 } := by
  have hpage := Look.page hmore hfetch
  rw [hrecords, List.append_nil] at hpage
  exact hpage

theorem Fetches.looks {r : Except PagingError Bool} (h : Fetches fuel t r u) : Looks t u := by
  induction h with
  | dry => exact .refl
  | failure more fetch => exact (Looks.single (.failure more fetch)).phase .failed
  | found more fetch => exact .single (.page more fetch)
  | last more fetch records => exact .single (.emptyPage more fetch records)
  | skip more fetch records continues rest ih => exact .head (.emptyPage more fetch records) ih

theorem LooksAhead.looks {r : Except PagingError Bool} (h : LooksAhead fuel t r u) :
    Looks t u := by
  cases h with
  | buffered => exact .refl
  | past buffer phase fetches => exact fetches.looks
  | ahead buffer phase fetches => exact .head (.phase t .lookingAhead) fetches.looks

theorem HasNext.looks {r : Except PagingError Bool} (h : HasNext fuel t r u) : Looks t u := by
  cases h with
  | failed => exact .refl
  | reached => exact .single (.phase t .limitReached)
  | failure alive limit look => exact look.looks
  | nothing alive limit look => exact look.looks.phase .exhausted
  | found alive limit look => exact look.looks.phase .buffering

theorem PastLimit.looks {r : Except PagingError Bool} (h : PastLimit fuel t r u) : Looks t u := by
  cases h with
  | unbounded => exact .refl
  | within bounded limit next => exact next.looks
  | failed => exact .refl
  | past bounded limit alive look => exact .head (.phase t .limitReached) look.looks

/-! ## Calls for a result -/

theorem HasNext.takes {record : Record} {rest : List Record} (h : HasNext fuel t (.ok true) u)
    (hbuffer : u.buffer = record :: rest) : Takes t record (u.take record rest) :=
  ⟨u, rest, h.looks, hbuffer, h.promised.2.1, rfl⟩

theorem NextItem.looks_or_takes {r : Except PagingError α} (h : NextItem fuel t r u) :
    (Looks t u ∧ ∃ e, r = .error e) ∨ ∃ record, Takes t record u ∧ r = t.materialize record := by
  cases h with
  | reached => exact .inl ⟨.refl, _, rfl⟩
  | failure limit next => exact .inl ⟨next.looks, _, rfl⟩
  | nothing limit next => exact .inl ⟨next.looks, _, rfl⟩
  | taken next buffer => exact .inr ⟨_, next.takes buffer, by rw [next.looks.materialize]⟩

theorem Next.looks_or_takes {r : Option (Except PagingError α)} (h : Next fuel t r u) :
    (Looks t u ∧ ∀ result, r ≠ some (.ok result)) ∨
      ∃ record, Takes t record u ∧ r = some (t.materialize record) := by
  cases h with
  | failed => exact .inl ⟨.refl, by simp⟩
  | failure alive next => exact .inl ⟨next.looks, by simp⟩
  | nothing next => exact .inl ⟨next.looks, by simp⟩
  | taken next buffer => exact .inr ⟨_, next.takes buffer, by rw [next.looks.materialize]⟩

end Traversal

end CursorPaging
