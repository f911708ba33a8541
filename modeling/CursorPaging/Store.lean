import CursorPaging.Condition
import CursorPaging.Error

/-!
# Stores

The requests for one page, the answers to them, and what a store has to offer for each kind of
request. A store may change as it answers, so every answer comes with the store as it is
afterwards.

* `QueryRequest`, `ScanRequest`, `BatchRequest`; `PageOutput`, `BatchOutput`;
* `Store`, `QueryStore`, `ScanStore`, `BatchStore`.
-/

namespace CursorPaging

/-- The rows of one partition, in range order. -/
structure QueryRequest where
  table : String
  /-- The hash value of the partition. -/
  hash : Scalar
  range : Option RangeCondition
  filters : List Filter
  /-- The most rows to read for a page; the store's own number if unset. -/
  pageSize : Option Nat
  /-- Whether range values ascend. -/
  forward : Bool
  deriving DecidableEq, Repr

/-- Every row of a table. -/
structure ScanRequest where
  table : String
  filters : List Filter
  /-- The most rows to read for a page; the store's own number if unset. -/
  pageSize : Option Nat
  deriving DecidableEq, Repr

/-- The rows of explicit keys. -/
structure BatchRequest where
  table : String
  keys : List ResumeKey
  deriving DecidableEq

/-- The answer to a query or scan. -/
structure PageOutput where
  /-- The rows that passed all filters. -/
  items : List Record
  /-- How many rows were read. -/
  evaluated : Nat
  /-- The key of the last row read, if more remain. -/
  lastKey : Option ResumeKey
  deriving DecidableEq, Inhabited

/-- The answer to a request for explicit keys. -/
structure BatchOutput where
  /-- The rows that were found. -/
  items : List Record
  /-- The keys that were not looked at. -/
  unprocessed : List ResumeKey
  deriving DecidableEq, Inhabited

/-- A store can tell the key layout of its tables. -/
class Store (β : Type) where
  keySchema : β → String → Except StoreError KeySchema

/-- A store that reads one page of a sorted partition, after a key. -/
class QueryStore (β : Type) extends Store β where
  query : β → QueryRequest → Option ResumeKey → Except StoreError PageOutput × β

/-- A store that reads one page of a table, after a key. -/
class ScanStore (β : Type) extends Store β where
  scan : β → ScanRequest → Option ResumeKey → Except StoreError PageOutput × β

/-- A store that resolves as many of some keys as it likes in one call. -/
class BatchStore (β : Type) extends Store β where
  batchGet : β → BatchRequest → Except StoreError BatchOutput × β

end CursorPaging
