import CursorPaging.Store

/-!
# Page sources

A source fetches pages and keeps track of where the next one starts. Every call that may change a
source gives the source as it is afterwards, also when the call fails.

* **`PageSource`**: what a walk needs of a source;
* `StartCursor`: the continuation of queries and scans, a key to go on after;
* `QuerySource`, `ScanSource`, `BatchSource`: a source over each kind of store.
-/

namespace CursorPaging

/-- Fetches pages and tracks where the next one starts. -/
class PageSource (σ : Type) where
  kind : σ → SourceKind
  /-- Fetch the next page. -/
  fetchPage : σ → Except PagingError Page × σ
  /-- Whether more pages may exist. -/
  hasMore : σ → Bool
  /-- The key layout that resume keys are built by. -/
  keySchema : σ → Except PagingError KeySchema
  /-- Go on after a key with the next fetch. -/
  setStart : σ → ResumeKey → Except PagingError Unit × σ
  /-- The last key that the store reported. -/
  lastKey : σ → Except PagingError (Option ResumeKey)
  /-- The key fields, hash key first. -/
  keyFields : σ → Except PagingError (List String) := fun s => (keySchema s).map KeySchema.fields
  hashKeyField : σ → Except PagingError String := fun s => (keySchema s).map KeySchema.hashKey
  isHashKeyField : σ → String → Except PagingError Bool :=
    fun s field => (keySchema s).map (·.isHashKey field)

/-! ## Going on after a key -/

/-- Where a query or scan is: the key to go on after, and whether a page was fetched. -/
structure StartCursor where
  schema : KeySchema
  startKey : Option ResumeKey
  fetched : Bool
  deriving DecidableEq

namespace StartCursor

/-- Nothing fetched yet. -/
def start (schema : KeySchema) : StartCursor := ⟨schema, none, false⟩

/-- Past a page: the last key of the store is the next start key as it is. -/
def advance (cursor : StartCursor) (output : PageOutput) : StartCursor :=
  { cursor with startKey := output.lastKey, fetched := true }

/-- The page of an answer. -/
def page (output : PageOutput) : Page :=
  ⟨output.items, match output.lastKey with
    | some key => .after key
    | none => .done⟩

def hasMore (cursor : StartCursor) : Bool := !cursor.fetched || cursor.startKey.isSome

/-- Go on after a key that has every key field. -/
def set (cursor : StartCursor) (key : ResumeKey) : Except PagingError Unit × StartCursor :=
  match cursor.schema.fields.find? (!key.fields.contains ·) with
  | some field => (.error (.missingKeyField field), cursor)
  | none => (.ok (), { cursor with startKey := some key })

end StartCursor

variable {β : Type}

/-! ## Queries -/

/-- Pages through one partition in range order. -/
structure QuerySource (β : Type) where
  store : β
  /-- The query that is repeated for every page. -/
  request : QueryRequest
  cursor : StartCursor

namespace QuerySource

/-- A source for a query, with the key layout that the store tells. -/
def make [Store β] (store : β) (request : QueryRequest) : Except PagingError (QuerySource β) :=
  match Store.keySchema store request.table with
  | .ok schema => .ok ⟨store, request, .start schema⟩
  | .error e => .error (.fetch e)

def fetchPage [QueryStore β] (s : QuerySource β) : Except PagingError Page × QuerySource β :=
  match QueryStore.query s.store s.request s.cursor.startKey with
  | (.ok output, store) =>
    (.ok (StartCursor.page output), { s with store, cursor := s.cursor.advance output })
  | (.error e, store) => (.error (.fetch e), { s with store })

/-- Go on after a key of this partition; one of another would silently skip rows. -/
def setStart (s : QuerySource β) (key : ResumeKey) : Except PagingError Unit × QuerySource β :=
  let hashKey := s.cursor.schema.hashKey
  match (key.fields.get? hashKey).filter (· ≠ s.request.hash) with
  | some value => (.error (.corruptPosition (.otherPartition hashKey value s.request.hash)), s)
  | none =>
    let (result, cursor) := s.cursor.set key
    (result, { s with cursor })

end QuerySource

instance [QueryStore β] : PageSource (QuerySource β) where
  kind _ := .rangeQuery
  fetchPage := QuerySource.fetchPage
  hasMore s := s.cursor.hasMore
  keySchema s := .ok s.cursor.schema
  setStart := QuerySource.setStart
  lastKey s := .ok s.cursor.startKey

/-! ## Scans -/

/-- Pages through a whole table. -/
structure ScanSource (β : Type) where
  store : β
  /-- The scan that is repeated for every page. -/
  request : ScanRequest
  cursor : StartCursor

namespace ScanSource

/-- A source for a scan, with the key layout that the store tells. -/
def make [Store β] (store : β) (request : ScanRequest) : Except PagingError (ScanSource β) :=
  match Store.keySchema store request.table with
  | .ok schema => .ok ⟨store, request, .start schema⟩
  | .error e => .error (.fetch e)

def fetchPage [ScanStore β] (s : ScanSource β) : Except PagingError Page × ScanSource β :=
  match ScanStore.scan s.store s.request s.cursor.startKey with
  | (.ok output, store) =>
    (.ok (StartCursor.page output), { s with store, cursor := s.cursor.advance output })
  | (.error e, store) => (.error (.fetch e), { s with store })

def setStart (s : ScanSource β) (key : ResumeKey) : Except PagingError Unit × ScanSource β :=
  let (result, cursor) := s.cursor.set key
  (result, { s with cursor })

end ScanSource

instance [ScanStore β] : PageSource (ScanSource β) where
  kind _ := .scan
  fetchPage := ScanSource.fetchPage
  hasMore s := s.cursor.hasMore
  keySchema s := .ok s.cursor.schema
  setStart := ScanSource.setStart
  lastKey s := .ok s.cursor.startKey

/-! ## Explicit keys -/

/-- Resolves explicit keys over as many calls as the store needs. There is no key to go on after,
so positions and questions about key fields are refused. -/
structure BatchSource (β : Type) where
  store : β
  table : String
  /-- The keys that are still to be resolved. -/
  pending : List ResumeKey

namespace BatchSource

def make (store : β) (request : BatchRequest) : BatchSource β :=
  ⟨store, request.table, request.keys⟩

/-- Send all keys that are pending; what comes back unprocessed is pending then. -/
def fetchPage [BatchStore β] (s : BatchSource β) : Except PagingError Page × BatchSource β :=
  match BatchStore.batchGet s.store ⟨s.table, s.pending⟩ with
  | (.ok output, store) =>
    (.ok ⟨output.items, .pending output.unprocessed⟩,
      { s with store, pending := output.unprocessed })
  | (.error e, store) => (.error (.fetch e), { s with store })

/-- Refuse an operation. -/
def refuse {γ : Type} (operation : Operation) : Except PagingError γ :=
  .error (.unsupported .batchGet operation)

end BatchSource

instance [BatchStore β] : PageSource (BatchSource β) where
  kind _ := .batchGet
  fetchPage := BatchSource.fetchPage
  hasMore s := !s.pending.isEmpty
  keySchema _ := BatchSource.refuse .keySchema
  setStart s _ := (BatchSource.refuse .setExclusiveStartKey, s)
  lastKey _ := BatchSource.refuse .lastEvaluatedKey
  keyFields _ := BatchSource.refuse .keyFields
  hashKeyField _ := BatchSource.refuse .hashKeyField
  isHashKeyField _ _ := BatchSource.refuse .isHashKeyField

end CursorPaging
