import CursorPaging.FieldMap

/-!
# Records, keys and pages

What a store hands out and what is needed to go on from there.

* `Record`: a row; `ResumeKey`: the key fields of one, after which a walk goes on;
* `KeySchema`: which fields are the key of a table;
* `Continuation`, `Page`: some records, and where the page after them starts.
-/

namespace CursorPaging

/-- A row as a store returns it. -/
structure Record where
  fields : FieldMap
  deriving DecidableEq, Inhabited

/-- The exact point after which a walk goes on: key fields and their values. -/
structure ResumeKey where
  fields : FieldMap
  deriving DecidableEq, Inhabited

/-- The order of keys. -/
def ResumeKey.order (a b : ResumeKey) : Ordering := a.fields.order b.fields

/-- The key of some fields of a record, or the first field that is missing. -/
def Record.project (record : Record) (fields : List String) : Except String ResumeKey :=
  (record.fields.project fields).map ResumeKey.mk

/-- The key layout of a table. -/
structure KeySchema where
  /-- The field that picks a partition. -/
  hashKey : String
  /-- The field that orders the rows of a partition, if there may be more than one. -/
  rangeKey : Option String
  deriving DecidableEq, Repr

/-- The key fields, hash key first. -/
def KeySchema.fields (schema : KeySchema) : List String :=
  schema.hashKey :: schema.rangeKey.toList

def KeySchema.isHashKey (schema : KeySchema) (field : String) : Bool := schema.hashKey = field

/-- Where the next page of a source starts. -/
inductive Continuation where
  /-- There is nothing more. -/
  | done
  /-- After this key. -/
  | after (key : ResumeKey)
  /-- With these keys, which were asked for and not resolved. -/
  | pending (keys : List ResumeKey)
  deriving DecidableEq, Inhabited

/-- Whether a continuation points at more. -/
def Continuation.isMore : Continuation → Bool
  | .done => false
  | .after _ => true
  | .pending keys => !keys.isEmpty

/-- Records in source order, and where the page after them starts. -/
structure Page where
  records : List Record
  continuation : Continuation
  deriving DecidableEq, Inhabited

/-- The page of no records after which nothing comes. -/
def Page.empty : Page := ⟨[], .done⟩

end CursorPaging
