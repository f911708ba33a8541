import CursorPaging.Pager
import CursorPaging.Proofs.Table.Rows
import CursorPaging.Proofs.Table.Source
import CursorPaging.Proofs.Traversal.Supply

/-!
# Setting up pagers

A pager is set up by any calls in any order before its walks. Whatever they are, they reach the
source only by the keys that it is told to go on after.

* `Setting`; `Pager.apply`, `Pager.applyAll`: a pager after some calls; **`applied`**: what one of
  them can do; `applyAll_keeps`, `applyAll_codec`;
* `setPosition_of_decode`, `setPositionWithHashKey_of_decode`: a token that can be read;
  `setPosition_refused`, `setPositionWithHashKey_refused`: a token whose key is refused;
* `QuerySource.Over`, **`QuerySource.supplies`**: over a table, a query brings rows of its
  partition; `supplied_of_calls`, **`row_of_position`**: so do its walks, and so the row behind a
  token;
* `Pager.setStart_other`: a key of another partition is refused.
-/

namespace CursorPaging

/-- A call that sets up a pager. -/
inductive Setting where
  | position (token : String)
  | positionWithHashKey (token : String) (hash : Scalar)
  | limit (limit : Nat)
  /-- Start a walk, which freezes the others. -/
  | iterate
  deriving DecidableEq, Repr

namespace Pager

variable {σ α : Type} [PageSource σ]

/-- A pager after a call. -/
def apply (p : Pager σ α) : Setting → Pager σ α
  | .position token => (p.setPosition token).2
  | .positionWithHashKey token hash => (p.setPositionWithHashKey token hash).2
  | .limit limit => (p.setLimit limit).2
  | .iterate => p.iterate.2

/-- A pager after some calls. -/
def applyAll (p : Pager σ α) (settings : List Setting) : Pager σ α := settings.foldl apply p

variable {p : Pager σ α} {token : String} {hash : Scalar} {key : ResumeKey}

theorem setStart_of_refused {e : PagingError}
    (h : PageSource.setStart p.source key = (.error e, p.source)) :
    p.setStart key = (.error e, p) := by
  rw [setStart, h]

/-- What a call can do to a pager. -/
inductive Applied (p : Pager σ α) : Pager σ α → Prop
  /-- It is refused. -/
  | same : Applied p p
  | start (key : ResumeKey) : Applied p (p.setStart key).2
  | limit (limit : Limit) : Applied p { p with limit }
  | iterate : Applied p { p with started := true }

theorem applied (p : Pager σ α) (setting : Setting) : p.Applied (p.apply setting) := by
  cases setting with
  | position token =>
    rw [apply, setPosition]
    split_ifs
    · exact .same
    · split
      · exact .same
      · split
        · exact .same
        · exact .start _
  | positionWithHashKey token hash =>
    simp only [apply, setPositionWithHashKey]
    split_ifs
    · exact .same
    · exact .same
    · split
      · exact .same
      · split
        · exact .same
        · exact .start _
  | limit limit =>
    rw [apply, setLimit]
    split_ifs
    · exact .same
    · split
      · exact .same
      · exact .limit _
  | iterate => exact .iterate

theorem applyAll_keeps {I : σ → Prop} (hset : ∀ {s : σ} (key : ResumeKey), I s →
    I (PageSource.setStart s key).2) (settings : List Setting) (hp : I p.source) :
    I (p.applyAll settings).source := by
  induction settings generalizing p with
  | nil => exact hp
  | cons setting rest ih =>
    refine ih ?_
    have happlied := p.applied setting
    generalize p.apply setting = u at happlied ⊢
    cases happlied with
    | start key => exact hset key hp
    | _ => exact hp

theorem applyAll_codec (settings : List Setting) (p : Pager σ α) :
    (p.applyAll settings).codec = p.codec := by
  induction settings generalizing p with
  | nil => rfl
  | cons setting rest ih =>
    refine (ih (p.apply setting)).trans ?_
    have happlied := p.applied setting
    generalize p.apply setting = u at happlied ⊢
    cases happlied <;> rfl

theorem setPosition_of_decode {schema : KeySchema} (hstarted : p.started = false)
    (hschema : PageSource.keySchema p.source = .ok schema)
    (hdecode : p.codec.decode token = .ok key) : p.setPosition token = p.setStart key := by
  simp only [setPosition, hstarted, hschema, hdecode]
  rfl

theorem setPositionWithHashKey_of_decode {field : String} (hstarted : p.started = false)
    (hkind : PageSource.kind p.source = .rangeQuery)
    (hfield : PageSource.hashKeyField p.source = .ok field)
    (hdecode : p.codec.decode token = .ok key) :
    p.setPositionWithHashKey token hash = p.setStart ⟨key.fields.insert field hash⟩ := by
  simp only [setPositionWithHashKey, hstarted, hkind, hfield, hdecode]
  rfl

theorem setPosition_refused
    (h : ∀ key, p.codec.decode token = .ok key → ∃ e, p.setStart key = (.error e, p)) :
    ∃ e, p.setPosition token = (.error e, p) := by
  unfold setPosition
  split_ifs
  · exact ⟨_, rfl⟩
  · cases PageSource.keySchema p.source with
    | error e => exact ⟨e, rfl⟩
    | ok schema =>
      cases hdecode : p.codec.decode token with
      | error e => exact ⟨e, rfl⟩
      | ok key => exact h key hdecode

theorem setPositionWithHashKey_refused
    (h : ∀ field key, PageSource.hashKeyField p.source = .ok field →
      p.codec.decode token = .ok key →
      ∃ e, p.setStart ⟨key.fields.insert field hash⟩ = (.error e, p)) :
    ∃ e, p.setPositionWithHashKey token hash = (.error e, p) := by
  simp only [setPositionWithHashKey]
  split_ifs
  · exact ⟨_, rfl⟩
  · exact ⟨_, rfl⟩
  · cases hfield : PageSource.hashKeyField p.source with
    | error e => exact ⟨e, rfl⟩
    | ok field =>
      cases hdecode : p.codec.decode token with
      | error e => exact ⟨e, rfl⟩
      | ok key => exact h field key hfield hdecode

end Pager

/-! ## Queries -/

namespace QuerySource

/-- A source of a query over a table. -/
structure Over (t : Table) (q : QueryRequest) (s : QuerySource Table) : Prop where
  store : s.store = t
  request : s.request = q
  schema : s.cursor.schema = t.schema

variable {t : Table} {q : QueryRequest} {s : QuerySource Table}

theorem over_make (h : make t q = .ok s) : s.Over t q := by
  unfold make at h
  rw [show Store.keySchema t q.table = t.keySchema q.table from rfl, Table.keySchema] at h
  rcases hname : t.checkName q.table with e | _
  · rw [hname] at h
    cases h
  · rw [hname] at h
    cases h
    exact ⟨rfl, rfl, rfl⟩

theorem over_setStart (key : ResumeKey) (h : s.Over t q) :
    (PageSource.setStart s key).2.Over t q := by
  change (s.setStart key).2.Over t q
  unfold setStart
  dsimp only
  split
  · exact h
  · refine ⟨h.store, h.request, ?_⟩
    dsimp only [StartCursor.set]
    split
    · exact h.schema
    · exact h.schema

/-- **What a query over a table brings** are rows of its partition. -/
theorem supplies (t : Table) (q : QueryRequest) :
    Traversal.Supplies (Over t q) fun row => ∃ e ∈ t.partition q.hash, e.2 = row where
  keeps := by
    intro s h
    change (fetchPage s).2.Over t q
    unfold fetchPage
    split
    · rename_i store hquery
      obtain ⟨-, rfl⟩ := Prod.mk.inj hquery
      exact ⟨h.store, h.request, h.schema⟩
    · rename_i store hquery
      obtain ⟨-, rfl⟩ := Prod.mk.inj hquery
      exact ⟨h.store, h.request, h.schema⟩
  records := by
    intro s u page h hfetch record hrecord
    change fetchPage s = _ at hfetch
    unfold fetchPage at hfetch
    split at hfetch
    · rename_i output store hquery
      obtain ⟨hpage, -⟩ := Prod.mk.inj hquery
      cases hfetch
      rw [h.store, h.request] at hpage
      exact Table.mem_partition_of_query hpage hrecord
    · cases hfetch

end QuerySource

section Walks

variable {α : Type} {t : Table} {q : QueryRequest} {source : QuerySource Table} {limit : Limit}
  {codec : PositionCodec} {m : Record → Except PagingError α} {fuel : Nat} {cs : List Call}
  {answers : List (Answer α)} {walk : Traversal (QuerySource Table) α} {token : String}

theorem supplied_of_calls (hover : source.Over t q)
    (hcalls : (Traversal.start source limit codec m).calls fuel cs = some (answers, walk)) :
    walk.Supplied (QuerySource.Over t q) fun row => ∃ e ∈ t.partition q.hash, e.2 = row :=
  Traversal.calls_supplied (QuerySource.supplies t q) hcalls
    (Traversal.supplied_start hover limit codec m)

theorem keySchema_of_calls (hover : source.Over t q)
    (hcalls : (Traversal.start source limit codec m).calls fuel cs = some (answers, walk)) :
    PageSource.keySchema walk.source = .ok t.schema :=
  congrArg Except.ok (supplied_of_calls hover hcalls).source.schema

/-- **The row behind a token** is the last that the query handed out. -/
theorem row_of_position (hover : source.Over t q)
    (hcalls : (Traversal.start source limit codec m).calls fuel cs = some (answers, walk))
    (htoken : walk.position = .ok (some token)) :
    ∃ e ∈ t.partition q.hash, ∃ key, walk.currentKey t.schema = .ok (some key) ∧
      e.2.project t.schema.fields = .ok key ∧ walk.codec.encode key = .ok token := by
  obtain ⟨key, hkey, hencode⟩ := Traversal.encodePosition_eq_some htoken
  have hcurrent := Traversal.resumeKey_whole (keySchema_of_calls hover hcalls) hkey
  obtain ⟨row, hlast, hproject⟩ := Traversal.currentKey_eq_some hcurrent
  obtain ⟨e, he, rfl⟩ := (supplied_of_calls hover hcalls).lastExamined row hlast
  exact ⟨e, he, key, hcurrent, hproject, hencode⟩

end Walks

theorem Pager.setStart_other {β : Type} {t : Table} {q : QueryRequest}
    {p : Pager (QuerySource Table) β} (hover : p.source.Over t q) {key : ResumeKey} {hash : Scalar}
    (hhash : key.fields.get? t.schema.hashKey = some hash) (hne : hash ≠ q.hash) :
    p.setStart key =
      (.error (.corruptPosition (.otherPartition t.schema.hashKey hash q.hash)), p) := by
  rw [← hover.schema] at hhash
  rw [← hover.request] at hne
  have hstart : PageSource.setStart p.source key = _ := QuerySource.setStart_other hhash hne
  rw [Pager.setStart_of_refused hstart, hover.schema, hover.request]

end CursorPaging
