import CursorPaging.Proofs.Table.Page
import CursorPaging.Proofs.Traversal.Steady

/-!
# Sources over requests

A source over a query or over a scan, as one type, and what a walk over a fixed table gets from it.

* `QuerySource.setStart_of_contains`, `setStart_of_locates`, `setStart_missing`, `setStart_other`:
  which keys a query goes on after;
* **`WalkSource`**, `WalkSource.make`;
* `truthful`, `keysKept`; `fetchPage_of_page`, `setStart_of_contains`, `setStart_of_locates`: what a
  fetch and a start key do to it;
* `WalkSource.At`, **`yields_walk`**: over a table it plays the rows of its request that lie after
  its location.
-/

namespace CursorPaging

/-! ## Keys to go on after -/

theorem StartCursor.set_of_contains {cursor : StartCursor} {key : ResumeKey}
    (h : ∀ field ∈ cursor.schema.fields, key.fields.contains field = true) :
    cursor.set key = (.ok (), { cursor with startKey := some key }) := by
  have hnone : cursor.schema.fields.find? (!key.fields.contains ·) = none :=
    List.find?_eq_none.2 fun field hfield => by simp [h field hfield]
  rw [StartCursor.set, hnone]

namespace QuerySource

variable {β : Type} {s : QuerySource β} {key : ResumeKey} {hash range : Scalar}

theorem setStart_of_contains (hhash : key.fields.get? s.cursor.schema.hashKey = some s.request.hash)
    (h : ∀ field ∈ s.cursor.schema.fields, key.fields.contains field = true) :
    s.setStart key = (.ok (), { s with cursor := { s.cursor with startKey := some key } }) := by
  have hsame : (some s.request.hash).filter (· ≠ s.request.hash) = none := by simp
  rw [setStart, hhash]
  simp only [hsame, StartCursor.set_of_contains h]

theorem setStart_of_locates (h : s.cursor.schema.Locates key.fields (s.request.hash, range)) :
    s.setStart key = (.ok (), { s with cursor := { s.cursor with startKey := some key } }) :=
  setStart_of_contains h.hash fun _ hfield => h.contains hfield

theorem setStart_missing (hhash : key.fields.get? s.cursor.schema.hashKey = none) :
    s.setStart key = (.error (.missingKeyField s.cursor.schema.hashKey), s) := by
  have hfirst : s.cursor.schema.fields.find? (!key.fields.contains ·) =
      some s.cursor.schema.hashKey := by
    rw [KeySchema.fields, List.find?_cons_of_pos]
    simp [FieldMap.contains_eq_false_iff.2 hhash]
  have hset : s.cursor.set key = (.error (.missingKeyField s.cursor.schema.hashKey), s.cursor) := by
    rw [StartCursor.set, hfirst]
  rw [setStart, hhash]
  simp only [Option.filter_none, hset]

theorem setStart_other (hhash : key.fields.get? s.cursor.schema.hashKey = some hash)
    (hne : hash ≠ s.request.hash) :
    s.setStart key = (.error (.corruptPosition
      (.otherPartition s.cursor.schema.hashKey hash s.request.hash)), s) := by
  have hother : (some hash).filter (· ≠ s.request.hash) = some hash := by simp [hne]
  rw [setStart, hhash]
  simp only [hother]

end QuerySource

/-- A source over the pages of a query or a scan. -/
inductive WalkSource (β : Type) where
  | query (source : QuerySource β)
  | scan (source : ScanSource β)

namespace WalkSource

variable {β : Type}

/-- A source for a request, with the key layout that the store tells. -/
def make [WalkStore β] (store : β) : Request → Except PagingError (WalkSource β)
  | .query q => (QuerySource.make store q).map .query
  | .scan s => (ScanSource.make store s).map .scan

def store : WalkSource β → β
  | .query s => s.store
  | .scan s => s.store

def request : WalkSource β → Request
  | .query s => .query s.request
  | .scan s => .scan s.request

def cursor : WalkSource β → StartCursor
  | .query s => s.cursor
  | .scan s => s.cursor

/-- The source with another store and cursor. -/
def put (store : β) (cursor : StartCursor) : WalkSource β → WalkSource β
  | .query s => .query { s with store, cursor }
  | .scan s => .scan { s with store, cursor }

instance [WalkStore β] : PageSource (WalkSource β) where
  kind
    | .query s => PageSource.kind s
    | .scan s => PageSource.kind s
  fetchPage
    | .query s => ((PageSource.fetchPage s).1, .query (PageSource.fetchPage s).2)
    | .scan s => ((PageSource.fetchPage s).1, .scan (PageSource.fetchPage s).2)
  hasMore
    | .query s => PageSource.hasMore s
    | .scan s => PageSource.hasMore s
  keySchema
    | .query s => PageSource.keySchema s
    | .scan s => PageSource.keySchema s
  setStart
    | .query s, key => ((PageSource.setStart s key).1, .query (PageSource.setStart s key).2)
    | .scan s, key => ((PageSource.setStart s key).1, .scan (PageSource.setStart s key).2)
  lastKey
    | .query s => PageSource.lastKey s
    | .scan s => PageSource.lastKey s
  hashKeyField
    | .query s => PageSource.hashKeyField s
    | .scan s => PageSource.hashKeyField s

@[simp] theorem store_put (s : WalkSource β) (store : β) (cursor : StartCursor) :
    (s.put store cursor).store = store := by cases s <;> rfl

@[simp] theorem request_put (s : WalkSource β) (store : β) (cursor : StartCursor) :
    (s.put store cursor).request = s.request := by cases s <;> rfl

@[simp] theorem cursor_put (s : WalkSource β) (store : β) (cursor : StartCursor) :
    (s.put store cursor).cursor = cursor := by cases s <;> rfl

variable [WalkStore β] {s : WalkSource β}

theorem fetchPage_query (s : QuerySource β) :
    PageSource.fetchPage (query s) = Prod.map id query s.fetchPage := rfl

theorem fetchPage_scan (s : ScanSource β) :
    PageSource.fetchPage (scan s) = Prod.map id scan s.fetchPage := rfl

theorem setStart_query (s : QuerySource β) (key : ResumeKey) :
    PageSource.setStart (query s) key = Prod.map id query (s.setStart key) := rfl

theorem setStart_scan (s : ScanSource β) (key : ResumeKey) :
    PageSource.setStart (scan s) key = Prod.map id scan (s.setStart key) := rfl

theorem hasMore_eq (s : WalkSource β) : PageSource.hasMore s = s.cursor.hasMore := by
  cases s <;> rfl

theorem keySchema_eq (s : WalkSource β) : PageSource.keySchema s = .ok s.cursor.schema := by
  cases s <;> rfl

theorem truthful : Truthful (WalkSource β) := by
  intro s u page h
  cases s with
  | query s =>
    obtain ⟨hpage, rfl⟩ := Prod.mk.inj h
    exact QuerySource.truthful s _ page (Prod.ext hpage rfl)
  | scan s =>
    obtain ⟨hpage, rfl⟩ := Prod.mk.inj h
    exact ScanSource.truthful s _ page (Prod.ext hpage rfl)

theorem keysKept : ∀ s : WalkSource β, KeysKept s := by
  refine keysKept_of_fetch fun s => ?_
  cases s with
  | query s => exact ⟨rfl, s.keySchema_fetchPage⟩
  | scan s => exact ⟨rfl, s.keySchema_fetchPage⟩

theorem fetchPage_of_page {output : PageOutput} {store : β}
    (h : s.request.page s.store s.cursor.startKey = (.ok output, store)) :
    PageSource.fetchPage s =
      (.ok (StartCursor.page output), s.put store (s.cursor.advance output)) := by
  cases s with
  | query s =>
    have hquery : QueryStore.query s.store s.request s.cursor.startKey = (.ok output, store) := h
    rw [fetchPage_query, QuerySource.fetchPage, hquery]
    rfl
  | scan s =>
    have hscan : ScanStore.scan s.store s.request s.cursor.startKey = (.ok output, store) := h
    rw [fetchPage_scan, ScanSource.fetchPage, hscan]
    rfl

theorem setStart_of_contains {key : ResumeKey}
    (hhash : ∀ q, s.request = .query q → key.fields.get? s.cursor.schema.hashKey = some q.hash)
    (h : ∀ field ∈ s.cursor.schema.fields, key.fields.contains field = true) :
    PageSource.setStart s key =
      (.ok (), s.put s.store { s.cursor with startKey := some key }) := by
  cases s with
  | query s =>
    rw [setStart_query, QuerySource.setStart_of_contains (hhash _ rfl) h]
    rfl
  | scan s =>
    have hset : s.cursor.set key = _ := StartCursor.set_of_contains h
    rw [setStart_scan, ScanSource.setStart, hset]
    rfl

theorem setStart_of_locates {key : ResumeKey} {loc : Location}
    (h : s.cursor.schema.Locates key.fields loc) (howns : s.request.Owns loc) :
    PageSource.setStart s key =
      (.ok (), s.put s.store { s.cursor with startKey := some key }) := by
  refine setStart_of_contains (fun q hq => ?_) fun _ hfield => h.contains hfield
  obtain ⟨hash, range⟩ := loc
  obtain rfl : hash = q.hash := by rwa [hq] at howns
  exact h.hash

theorem make_of_keySchema {store : β} {r : Request} {schema : KeySchema}
    (h : Store.keySchema store r.table = .ok schema) :
    ∃ s, make store r = .ok s ∧ s.store = store ∧ s.request = r ∧ s.cursor = .start schema := by
  cases r with
  | query q =>
    refine ⟨.query ⟨store, q, .start schema⟩, ?_, rfl, rfl, rfl⟩
    rw [make, QuerySource.make, show Store.keySchema store q.table = _ from h]
    rfl
  | scan s =>
    refine ⟨.scan ⟨store, s, .start schema⟩, ?_, rfl, rfl, rfl⟩
    rw [make, ScanSource.make, show Store.keySchema store s.table = _ from h]
    rfl

/-! ## Over a fixed table -/

/-- A source over a table whose start key, if there is one, names a location of its request. -/
structure At (r : Request) (t : Table) (start : Option Location) (s : WalkSource Table) : Prop where
  store : s.store = t
  request : s.request = r
  schema : s.cursor.schema = t.schema
  start : r.StartsAt t.schema s.cursor.startKey start

variable {r : Request} {t : Table} {start : Option Location}

/-- **A source over a table plays what is left of its request.** -/
theorem yields_walk (h : t.WellFormed) (hfits : r.Fits t) :
    ∀ {start : Option Location} {s : WalkSource Table}, s.At r t start → s.cursor.hasMore = true →
      ∃ n, n ≤ (r.readsAfter t start).length + 1 ∧
        Yields t.schema n s (r.select (r.readsAfter t start)) := by
  intro start
  generalize hlength : (r.readsAfter t start).length = length
  induction length using Nat.strongRecOn generalizing start with
  | ind length ih =>
    intro s hs hmore
    have hkey : PageSource.keySchema s = .ok t.schema := by rw [keySchema_eq, hs.schema]
    have hopen : PageSource.hasMore s = true := (hasMore_eq s).trans hmore
    obtain ⟨output, hpage, hafter⟩ := Request.page_after h hfits hs.start
    rw [← hs.store, ← hs.request] at hpage
    have hfetch := fetchPage_of_page hpage
    cases hafter with
    | last items lastKey =>
      have hdry : Yields t.schema 0 (s.put s.store (s.cursor.advance output)) [] := by
        refine .dry ?_ ?_
        · rw [keySchema_eq, cursor_put]
          exact congrArg Except.ok hs.schema
        · rw [hasMore_eq, cursor_put, StartCursor.hasMore, StartCursor.advance, lastKey]
          rfl
      refine ⟨1, by omega, ?_⟩
      have hyields := Yields.page hkey hopen hfetch ?_ hdry
      · rw [List.append_nil, StartCursor.page, items] at hyields
        exact hyields
      · rw [hasMore_eq, cursor_put, StartCursor.hasMore_advance]
    | more read rest loc row key split items lastKey located =>
      have hrest : r.readsAfter t (some loc) = rest :=
        Request.readsAfter_of_split h (fun _ => hs.start.sound) split
      have hmem : (loc, row) ∈ r.readsAfter t start := by
        rw [split]
        exact List.mem_append_right _ List.mem_cons_self
      have hcovers : r.covers loc = true :=
        (Request.mem_reads_iff.1 ((Request.readsAfter_sublist r t start).subset hmem)).2
      have hnext : (s.put s.store (s.cursor.advance output)).At r t (some loc) := by
        refine ⟨by rw [store_put]; exact hs.store, by rw [request_put]; exact hs.request,
          by rw [cursor_put]; exact hs.schema, ?_⟩
        rw [cursor_put, StartCursor.advance, lastKey]
        exact .some located (Request.owns_of_covers hcovers)
      have hmore' : (s.put s.store (s.cursor.advance output)).cursor.hasMore = true := by
        rw [cursor_put, StartCursor.hasMore, StartCursor.advance, lastKey]
        rfl
      have hsize : (r.readsAfter t start).length = read.length + (rest.length + 1) := by
        rw [split, List.length_append, List.length_cons]
      obtain ⟨n, hn, hyields⟩ := ih rest.length (by omega) (congrArg List.length hrest) hnext hmore'
      refine ⟨n + 1, by omega, ?_⟩
      have hwhole := Yields.page hkey hopen hfetch ?_ hyields
      · rw [StartCursor.page, items, hrest, ← Request.select_append, List.append_assoc] at hwhole
        rw [split]
        exact hwhole
      · rw [hasMore_eq, cursor_put, StartCursor.hasMore_advance]

end WalkSource

end CursorPaging
