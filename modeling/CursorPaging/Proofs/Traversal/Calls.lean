import CursorPaging.Proofs.Traversal.Steps

/-!
# Sequences of calls

What a caller can do with a walk, in any order and any number of times, and what a walk looks like
through a map of its source.

* `Ask`, `Call`, `Answer`; `Traversal.call`, `Traversal.calls`: the answers to some calls and the
  walk after them;
* `Asked`, `asked_of_eq`: how a call comes back; `ask_cases`, `call_cases`: what it can do;
  `calls_cons`: the first of some calls; `calls_keeps_asked`, `calls_keeps`: what calls keep;
* `SourceMap`: a map of sources under which fetches correspond; `Traversal.view`: the walk over the
  image of a source, with results made out of the results;
* **`calls_view`**: the image of a walk answers every sequence of calls with the images of the
  answers.
-/

namespace CursorPaging

/-- A call that may fetch. -/
inductive Ask where
  | hasNext
  | nextItem
  | next
  | hasResultsPastLimit
  deriving DecidableEq, Repr

/-- One call on a walk. -/
inductive Call where
  | ask (ask : Ask)
  /-- The key to go on after, perhaps without its hash key. -/
  | resumeKey (removeHashKey : Bool)
  /-- The token of that key. -/
  | position (removeHashKey : Bool)
  deriving DecidableEq, Repr

/-- The answer to a call. -/
inductive Answer (α : Type) where
  | found (answer : Except PagingError Bool)
  | item (result : Except PagingError α)
  | pulled (result : Option (Except PagingError α))
  | key (answer : Except PagingError (Option ResumeKey))
  | token (answer : Except PagingError (Option String))

namespace Answer

variable {α β : Type}

/-- An answer whose results are made into others. -/
def bind (m : α → Except PagingError β) : Answer α → Answer β
  | .found answer => .found answer
  | .item result => .item (result.bind m)
  | .pulled result => .pulled (result.map (·.bind m))
  | .key answer => .key answer
  | .token answer => .token answer

/-- The result that an answer hands out, if it does. -/
def results : Answer α → List α
  | .item (.ok result) => [result]
  | .pulled (some (.ok result)) => [result]
  | _ => []

end Answer

namespace Traversal

variable {σ τ α β : Type}

section Calls

variable [PageSource σ]

/-- The answer to a call that may fetch, and the walk after it. -/
def ask (fuel : Nat) (t : Traversal σ α) : Ask → Option (Answer α × Traversal σ α)
  | .hasNext => (t.hasNext fuel).map fun r => (.found r.1, r.2)
  | .nextItem => (t.nextItem fuel).map fun r => (.item r.1, r.2)
  | .next => (t.next fuel).map fun r => (.pulled r.1, r.2)
  | .hasResultsPastLimit => (t.hasResultsPastLimit fuel).map fun r => (.found r.1, r.2)

/-- The answer to a call and the walk after it. -/
def call (fuel : Nat) (t : Traversal σ α) : Call → Option (Answer α × Traversal σ α)
  | .ask ask => t.ask fuel ask
  | .resumeKey removeHashKey => some (.key (t.resumeKey removeHashKey), t)
  | .position removeHashKey => some (.token (t.encodePosition removeHashKey), t)

/-- The answers to some calls, one after the other, and the walk after them. -/
def calls (fuel : Nat) : List Call → Traversal σ α → Option (List (Answer α) × Traversal σ α)
  | [], t => some ([], t)
  | c :: rest, t =>
    match t.call fuel c with
    | none => none
    | some (answer, t) => (calls fuel rest t).map fun r => (answer :: r.1, r.2)

variable {fuel : Nat} {t u : Traversal σ α} {answer : Answer α}

/-- How a call that may fetch comes back. -/
inductive Asked (fuel : Nat) (t : Traversal σ α) : Ask → Answer α → Traversal σ α → Prop
  | hasNext {r : Except PagingError Bool} {u : Traversal σ α} (run : HasNext fuel t r u) :
      Asked fuel t .hasNext (.found r) u
  | nextItem {r : Except PagingError α} {u : Traversal σ α} (run : NextItem fuel t r u) :
      Asked fuel t .nextItem (.item r) u
  | next {r : Option (Except PagingError α)} {u : Traversal σ α} (run : Next fuel t r u) :
      Asked fuel t .next (.pulled r) u
  | hasResultsPastLimit {r : Except PagingError Bool} {u : Traversal σ α}
      (run : PastLimit fuel t r u) : Asked fuel t .hasResultsPastLimit (.found r) u

theorem asked_of_eq {ask : Ask} (h : t.ask fuel ask = some (answer, u)) :
    Asked fuel t ask answer u := by
  cases ask with
  | hasNext =>
    obtain ⟨r, hr, heq⟩ := Option.map_eq_some_iff.1 h
    cases heq
    exact .hasNext (hasNext_of_eq hr)
  | nextItem =>
    obtain ⟨r, hr, heq⟩ := Option.map_eq_some_iff.1 h
    cases heq
    exact .nextItem (nextItem_of_eq hr)
  | next =>
    obtain ⟨r, hr, heq⟩ := Option.map_eq_some_iff.1 h
    cases heq
    exact .next (next_of_eq hr)
  | hasResultsPastLimit =>
    obtain ⟨r, hr, heq⟩ := Option.map_eq_some_iff.1 h
    cases heq
    exact .hasResultsPastLimit (pastLimit_of_eq hr)

theorem ask_cases {ask : Ask} (h : t.ask fuel ask = some (answer, u)) :
    (Looks t u ∧ answer.results = []) ∨
      ∃ record, Takes t record u ∧ answer.results = (t.materialize record).toOption.toList := by
  cases asked_of_eq h with
  | hasNext run => exact .inl ⟨run.looks, rfl⟩
  | nextItem run =>
    rcases run.looks_or_takes with ⟨hlooks, e, rfl⟩ | ⟨record, htakes, rfl⟩
    · exact .inl ⟨hlooks, rfl⟩
    · refine .inr ⟨record, htakes, ?_⟩
      cases t.materialize record <;> rfl
  | @next r v run =>
    rcases run.looks_or_takes with ⟨hlooks, hr⟩ | ⟨record, htakes, rfl⟩
    · refine .inl ⟨hlooks, ?_⟩
      rcases r with _ | ⟨_ | result⟩
      · rfl
      · rfl
      · exact absurd rfl (hr result)
    · refine .inr ⟨record, htakes, ?_⟩
      cases t.materialize record <;> rfl
  | hasResultsPastLimit run => exact .inl ⟨run.looks, rfl⟩

/-- **A call** looks and hands out nothing, or hands out what one record is made into. -/
theorem call_cases {c : Call} (h : t.call fuel c = some (answer, u)) :
    (Looks t u ∧ answer.results = []) ∨
      ∃ record, Takes t record u ∧ answer.results = (t.materialize record).toOption.toList := by
  cases c with
  | ask ask => exact ask_cases h
  | resumeKey removeHashKey =>
    cases h
    exact .inl ⟨.refl, rfl⟩
  | position removeHashKey =>
    cases h
    exact .inl ⟨.refl, rfl⟩

theorem calls_cons {c : Call} {rest : List Call} {answers : List (Answer α)}
    (h : calls fuel (c :: rest) t = some (answers, u)) :
    ∃ answer v later, t.call fuel c = some (answer, v) ∧ calls fuel rest v = some (later, u) ∧
      answers = answer :: later := by
  unfold calls at h
  rcases hcall : t.call fuel c with _ | ⟨answer, v⟩
  · rw [hcall] at h
    cases h
  · simp only [hcall] at h
    obtain ⟨⟨later, w⟩, hlater, heq⟩ := Option.map_eq_some_iff.1 h
    cases heq
    exact ⟨answer, v, later, rfl, hlater, rfl⟩

/-- **What every call that may fetch keeps is kept by calls.** -/
theorem calls_keeps_asked {P : Traversal σ α → Prop}
    (hask : ∀ {t u : Traversal σ α} {ask : Ask} {answer : Answer α},
      t.ask fuel ask = some (answer, u) → P t → P u) :
    ∀ {cs : List Call} {answers : List (Answer α)} {t u : Traversal σ α},
      calls fuel cs t = some (answers, u) → P t → P u
  | [], answers, t, u, h, ht => by
    cases h
    exact ht
  | c :: rest, answers, t, u, h, ht => by
    obtain ⟨answer, v, later, hcall, hlater, -⟩ := calls_cons h
    refine calls_keeps_asked hask hlater ?_
    cases c with
    | ask ask => exact hask hcall ht
    | resumeKey removeHashKey =>
      cases hcall
      exact ht
    | position removeHashKey =>
      cases hcall
      exact ht

/-- **What every look and every record handed out keeps is kept by calls.** -/
theorem calls_keeps {P : Traversal σ α → Prop} (hlook : ∀ {t u}, Look t u → P t → P u)
    (htake : ∀ {t record rest}, t.buffer = record :: rest → P t → P (t.take record rest))
    {cs : List Call} {answers : List (Answer α)} (h : calls fuel cs t = some (answers, u))
    (ht : P t) : P u := by
  refine calls_keeps_asked (fun {t u ask answer} hask ht => ?_) h ht
  rcases ask_cases hask with ⟨hlooks, -⟩ | ⟨record, ⟨v, left, hlooks, hbuffer, -, rfl⟩, -⟩
  · exact hlooks.keeps hlook ht
  · exact htake hbuffer (hlooks.keeps hlook ht)

end Calls

/-! ## Walks over the image of a source -/

/-- Fetches from the image of a source are the fetches from the source. -/
structure SourceMap [PageSource σ] [PageSource τ] (f : σ → τ) : Prop where
  kind : ∀ s, PageSource.kind (f s) = PageSource.kind s
  hasMore : ∀ s, PageSource.hasMore (f s) = PageSource.hasMore s
  fetchPage : ∀ s, PageSource.fetchPage (f s) =
    ((PageSource.fetchPage s).1, f (PageSource.fetchPage s).2)
  keySchema : ∀ s, PageSource.keySchema (f s) = PageSource.keySchema s

/-- The walk over the image of a source, with results made out of the results. -/
def view (f : σ → τ) (m : α → Except PagingError β) (t : Traversal σ α) : Traversal τ β where
  source := f t.source
  buffer := t.buffer
  limit := t.limit
  lastExamined := t.lastExamined
  phase := t.phase
  pages := t.pages
  codec := t.codec
  materialize record := (t.materialize record).bind m

variable [PageSource σ] [PageSource τ] {f : σ → τ}

theorem fetchRecords_view (hf : SourceMap f) (m : α → Except PagingError β) :
    ∀ (fuel : Nat) (t : Traversal σ α),
      fetchRecords fuel (t.view f m) = (fetchRecords fuel t).map fun r => (r.1, r.2.view f m)
  | fuel, t => by
    have hmore :
        PageSource.hasMore (t.view f m).source = PageSource.hasMore t.source := hf.hasMore _
    have hfetch := hf.fetchPage t.source
    unfold fetchRecords
    rw [hmore]
    split_ifs with hm
    · cases fuel with
      | zero => rfl
      | succ fuel =>
        have hfetch' : PageSource.fetchPage (t.view f m).source = _ := hfetch
        rw [hfetch']
        rcases PageSource.fetchPage t.source with ⟨e | page, s⟩
        · rfl
        · dsimp only
          split_ifs
          · rfl
          · exact fetchRecords_view hf m fuel { t with source := s, pages := t.pages + 1 }
          · rfl
    · rfl

theorem lookAhead_view (hf : SourceMap f) (m : α → Except PagingError β) (fuel : Nat)
    (t : Traversal σ α) :
    (t.view f m).lookAhead fuel = (t.lookAhead fuel).map fun r => (r.1, r.2.view f m) := by
  have hbuffer : (t.view f m).buffer = t.buffer := rfl
  have hphase : (t.view f m).phase = t.phase := rfl
  unfold lookAhead
  rw [hbuffer, hphase]
  split_ifs
  · rfl
  · exact fetchRecords_view hf m fuel t
  · exact fetchRecords_view hf m fuel { t with phase := .lookingAhead }

theorem hasNext_view (hf : SourceMap f) (m : α → Except PagingError β) (fuel : Nat)
    (t : Traversal σ α) :
    (t.view f m).hasNext fuel = (t.hasNext fuel).map fun r => (r.1, r.2.view f m) := by
  have hphase : (t.view f m).phase = t.phase := rfl
  have hlimit : (t.view f m).limit = t.limit := rfl
  unfold hasNext
  rw [hphase, hlimit, lookAhead_view hf]
  split_ifs
  · rfl
  · rfl
  · rcases t.lookAhead fuel with _ | ⟨_ | _ | _, _⟩ <;> rfl

theorem nextItem_view (hf : SourceMap f) (m : α → Except PagingError β) (fuel : Nat)
    (t : Traversal σ α) :
    (t.view f m).nextItem fuel = (t.nextItem fuel).map fun r => (r.1.bind m, r.2.view f m) := by
  have hlimit : (t.view f m).limit = t.limit := rfl
  unfold nextItem
  rw [hlimit, hasNext_view hf]
  split_ifs
  · rfl
  · rcases t.hasNext fuel with _ | ⟨_ | _ | _, u⟩
    · rfl
    · rfl
    · rfl
    · have hbuffer : (u.view f m).buffer = u.buffer := rfl
      simp only [Option.map_some, hbuffer]
      cases u.buffer <;> rfl

theorem next_view (hf : SourceMap f) (m : α → Except PagingError β) (fuel : Nat)
    (t : Traversal σ α) :
    (t.view f m).next fuel = (t.next fuel).map fun r => (r.1.map (·.bind m), r.2.view f m) := by
  have hphase : (t.view f m).phase = t.phase := rfl
  unfold next
  rw [hphase, hasNext_view hf]
  split_ifs
  · rfl
  · rcases t.hasNext fuel with _ | ⟨_ | _ | _, u⟩
    · rfl
    · rfl
    · rfl
    · simp only [Option.map_some, nextItem_view hf]
      cases u.nextItem fuel <;> rfl

theorem hasResultsPastLimit_view (hf : SourceMap f) (m : α → Except PagingError β) (fuel : Nat)
    (t : Traversal σ α) :
    (t.view f m).hasResultsPastLimit fuel =
      (t.hasResultsPastLimit fuel).map fun r => (r.1, r.2.view f m) := by
  have hphase : (t.view f m).phase = t.phase := rfl
  have hlimit : (t.view f m).limit = t.limit := rfl
  unfold hasResultsPastLimit
  rw [hphase, hlimit]
  split_ifs
  · rfl
  · exact hasNext_view hf m fuel t
  · rfl
  · exact lookAhead_view hf m fuel { t with phase := .limitReached }

theorem resumeKey_view (hf : SourceMap f) (m : α → Except PagingError β) (removeHashKey : Bool)
    (t : Traversal σ α) : (t.view f m).resumeKey removeHashKey = t.resumeKey removeHashKey := by
  have hkind : PageSource.kind (t.view f m).source = PageSource.kind t.source := hf.kind _
  have hschema : PageSource.keySchema (t.view f m).source = PageSource.keySchema t.source :=
    hf.keySchema _
  unfold resumeKey
  rw [hschema]
  simp only [checkRemoveHashKey, hkind]
  rfl

theorem encodePosition_view (hf : SourceMap f) (m : α → Except PagingError β)
    (removeHashKey : Bool) (t : Traversal σ α) :
    (t.view f m).encodePosition removeHashKey = t.encodePosition removeHashKey := by
  unfold encodePosition
  rw [resumeKey_view hf]
  rfl

theorem ask_view (hf : SourceMap f) (m : α → Except PagingError β) (fuel : Nat)
    (t : Traversal σ α) (ask : Ask) :
    (t.view f m).ask fuel ask = (t.ask fuel ask).map fun r => (r.1.bind m, r.2.view f m) := by
  cases ask with
  | hasNext => simp only [Traversal.ask, hasNext_view hf, Option.map_map]; rfl
  | nextItem => simp only [Traversal.ask, nextItem_view hf, Option.map_map]; rfl
  | next => simp only [Traversal.ask, next_view hf, Option.map_map]; rfl
  | hasResultsPastLimit =>
    simp only [Traversal.ask, hasResultsPastLimit_view hf, Option.map_map]
    rfl

theorem call_view (hf : SourceMap f) (m : α → Except PagingError β) (fuel : Nat)
    (t : Traversal σ α) (c : Call) :
    (t.view f m).call fuel c = (t.call fuel c).map fun r => (r.1.bind m, r.2.view f m) := by
  cases c with
  | ask ask => exact ask_view hf m fuel t ask
  | resumeKey removeHashKey => simp only [call, resumeKey_view hf]; rfl
  | position removeHashKey => simp only [call, encodePosition_view hf]; rfl

/-- **The image of a walk answers as the walk does**, with the images of its results. -/
theorem calls_view (hf : SourceMap f) (m : α → Except PagingError β) (fuel : Nat) :
    ∀ (cs : List Call) (t : Traversal σ α), calls fuel cs (t.view f m) =
      (calls fuel cs t).map fun r => (r.1.map (·.bind m), r.2.view f m)
  | [], t => rfl
  | c :: rest, t => by
    unfold calls
    rw [call_view hf]
    rcases t.call fuel c with _ | ⟨answer, u⟩
    · rfl
    · simp only [Option.map_some, calls_view hf m fuel rest u, Option.map_map]
      rfl

end Traversal

end CursorPaging
