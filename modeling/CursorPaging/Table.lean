import CursorPaging.Table.Ordered
import CursorPaging.Store

/-!
# Tables

A table in memory: rows by hash value, and by range value within a partition. It answers one page
at a time: a page reads a bounded number of rows, filters come after that, and a last key is given
only while rows are left to read.

* `Table`, `Table.make`, `Table.locate`;
* `Table.insert`, `Table.get`, `Table.delete`, `Table.size`;
* `Table.queryRows`, `Table.scanRows`: the rows of a request in the order in which they are read;
* **`Table.query`**, **`Table.scan`**, **`Table.batchGet`**.
-/

namespace CursorPaging

-- the zero that sums start from is that of the core library
attribute [local instance (10000)] Zero.ofOfNat0

/-- Rows by range value. -/
abbrev Partition := List (Scalar × Record)

/-- A table in memory. -/
structure Table where
  name : String
  schema : KeySchema
  /-- The partitions by hash value. None is empty. -/
  partitions : List (Scalar × Partition)
  /-- The rows that a page reads unless a request says otherwise. -/
  pageSize : Nat
  /-- The keys that one call resolves. -/
  batchMax : Nat

namespace Table

/-- A table without rows. A page or batch of nothing would get nowhere, so both are at least
one. -/
def make (name : String) (schema : KeySchema) (pageSize batchMax : Nat) : Table :=
  ⟨name, schema, [], max 1 pageSize, max 1 batchMax⟩

/-- The number of rows. -/
def size (t : Table) : Nat := (t.partitions.map (·.2.length)).sum

def isEmpty (t : Table) : Bool := t.partitions.isEmpty

/-! ## Keys -/

def invalid (t : Table) (fault : KeyFault) : StoreError := .invalidKey t.name fault

/-- Requests name the table they are for. -/
def checkName (t : Table) (table : String) : Except StoreError Unit :=
  if table = t.name then .ok () else .error (.unknownTable table)

/-- The value of a key field. Only texts and numbers can be keys. -/
def keyValue (t : Table) (fields : FieldMap) (field : String) : Except StoreError Scalar :=
  match fields.get? field with
  | some (.text s) => .ok (.text s)
  | some (.number s) => .ok (.number s)
  | some value => .error (t.invalid (.wrongKind field value.kind))
  | none => .error (t.invalid (.missing field))

/-- The hash value and range value of a row or key. Without a range key the one row of a partition
is kept under null. -/
def locate (t : Table) (fields : FieldMap) : Except StoreError (Scalar × Scalar) :=
  match t.keyValue fields t.schema.hashKey with
  | .error e => .error e
  | .ok hash =>
    match t.schema.rangeKey with
    | none => .ok (hash, .null)
    | some rangeKey =>
      match t.keyValue fields rangeKey with
      | .error e => .error e
      | .ok range => .ok (hash, range)

/-! ## Rows -/

def partition (t : Table) (hash : Scalar) : Partition := (Ordered.get? hash t.partitions).getD []

/-- The row at a hash value and range value. -/
def rowAt (t : Table) (at_ : Scalar × Scalar) : Option Record :=
  Ordered.get? at_.2 (t.partition at_.1)

/-- Put in a row. The result is the row that it replaced. -/
def insert (t : Table) (row : Record) : Except StoreError (Option Record × Table) :=
  match t.locate row.fields with
  | .error e => .error e
  | .ok (hash, range) =>
    let rows := Ordered.insert range row (t.partition hash)
    .ok (t.rowAt (hash, range), { t with partitions := Ordered.insert hash rows t.partitions })

/-- The row of a key. -/
def get (t : Table) (key : ResumeKey) : Except StoreError (Option Record) :=
  (t.locate key.fields).map t.rowAt

/-- Take out the row of a key, and its partition with the last row. The result is the row. -/
def delete (t : Table) (key : ResumeKey) : Except StoreError (Option Record × Table) :=
  match t.locate key.fields with
  | .error e => .error e
  | .ok (hash, range) =>
    match Ordered.get? hash t.partitions with
    | none => .ok (none, t)
    | some rows =>
      let left := Ordered.erase range rows
      let partitions :=
        if left.isEmpty then Ordered.erase hash t.partitions
        else Ordered.insert hash left t.partitions
      .ok (Ordered.get? range rows, { t with partitions })

/-! ## Pages -/

/-- Read up to one page of rows. -/
def readPage (t : Table) (rows : List Record) (pageSize : Nat) (filters : List Filter) :
    Except StoreError PageOutput :=
  let read := rows.take pageSize
  let items := read.filter (passesAll filters)
  match (rows.drop pageSize).isEmpty, read.getLast? with
  | false, some row =>
    match row.project t.schema.fields with
    | .ok key => .ok ⟨items, read.length, some key⟩
    | .error field => .error (t.invalid (.missing field))
  | _, _ => .ok ⟨items, read.length, none⟩

/-- The number of rows that a page of a request reads. -/
def effectivePageSize (t : Table) (requested : Option Nat) : Nat :=
  max 1 (requested.getD t.pageSize)

/-- The rows of a partition after a range value, in either direction. -/
def walk (rows : Partition) (start : Option Scalar) (forward : Bool) : Partition :=
  match start, forward with
  | none, true => rows
  | none, false => rows.reverse
  | some range, true => Ordered.after range rows
  | some range, false => (Ordered.before range rows).reverse

/-- The range value after which a query goes on. The start key is of the partition it reads. -/
def queryStart (t : Table) (request : QueryRequest) :
    Option ResumeKey → Except StoreError (Option Scalar)
  | none => .ok none
  | some key =>
    match t.locate key.fields with
    | .error e => .error e
    | .ok (hash, range) =>
      if hash = request.hash then .ok (some range)
      else .error (t.invalid (.otherPartition hash request.hash))

/-- The rows that a query reads after a range value. Rows outside its range condition are not
read. -/
def queryRows (t : Table) (request : QueryRequest) (start : Option Scalar) : List Record :=
  let inRange (range : Scalar) := request.range.all (·.holds range)
  ((walk (t.partition request.hash) start request.forward).filter (inRange ·.1)).map (·.2)

/-- One page of a partition, after a key. -/
def query (t : Table) (request : QueryRequest) (start : Option ResumeKey) :
    Except StoreError PageOutput := do
  t.checkName request.table
  if request.range.isSome && t.schema.rangeKey.isNone then throw (t.invalid .noRangeKey)
  let start ← t.queryStart request start
  t.readPage (t.queryRows request start) (t.effectivePageSize request.pageSize) request.filters

/-- The rows that a scan reads after a hash value and range value. -/
def scanRows (t : Table) : Option (Scalar × Scalar) → List Record
  | none => t.partitions.flatMap fun p => p.2.map (·.2)
  | some (hash, range) =>
    (Ordered.startingAt hash t.partitions).flatMap fun p =>
      (walk p.2 (if hash = p.1 then some range else none) true).map (·.2)

/-- One page of the table, after a key. -/
def scan (t : Table) (request : ScanRequest) (start : Option ResumeKey) :
    Except StoreError PageOutput := do
  t.checkName request.table
  let start ← match start with
    | none => pure none
    | some key => some <$> t.locate key.fields
  t.readPage (t.scanRows start) (t.effectivePageSize request.pageSize) request.filters

/-- The rows of some keys, in their order. Keys without a row give none. -/
def getAll (t : Table) : List ResumeKey → Except StoreError (List Record)
  | [] => .ok []
  | key :: rest =>
    match t.get key with
    | .error e => .error e
    | .ok row => (t.getAll rest).map (row.toList ++ ·)

/-- As many of some keys as one call resolves. -/
def batchGet (t : Table) (request : BatchRequest) : Except StoreError BatchOutput := do
  t.checkName request.table
  let items ← t.getAll (request.keys.take t.batchMax)
  return ⟨items, request.keys.drop t.batchMax⟩

/-- The key layout, for requests that name this table. -/
def keySchema (t : Table) (table : String) : Except StoreError KeySchema :=
  (t.checkName table).map fun _ => t.schema

instance : Store Table := ⟨keySchema⟩
instance : QueryStore Table := ⟨fun t request start => (t.query request start, t)⟩
instance : ScanStore Table := ⟨fun t request start => (t.scan request start, t)⟩
instance : BatchStore Table := ⟨fun t request => (t.batchGet request, t)⟩

end Table

end CursorPaging
