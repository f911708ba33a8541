import CursorPaging.Record

/-!
# Conditions on rows

* `RangeCondition`: on the range value of a row. Rows outside it are never read;
* `Filter`: on a row that was read. Rows that fail it still count as read.
-/

namespace CursorPaging

/-- Whether a text starts with another. -/
def startsWith (text start : String) : Bool := start.toList.isPrefixOf text.toList

/-- A condition on a range value. -/
inductive RangeCondition where
  | equal (target : Scalar)
  | below (target : Scalar)
  | atMost (target : Scalar)
  | above (target : Scalar)
  | atLeast (target : Scalar)
  /-- From the first to the second, both included. -/
  | between (low high : Scalar)
  /-- A text with this start. -/
  | beginsWith (start : String)
  deriving DecidableEq, Repr

/-- Whether a range value satisfies a condition. -/
def RangeCondition.holds (condition : RangeCondition) (value : Scalar) : Bool :=
  match condition with
  | .equal target => value = target
  | .below target => (value.order target).isLT
  | .atMost target => (value.order target).isLE
  | .above target => (value.order target).isGT
  | .atLeast target => (value.order target).isGE
  | .between low high => (low.order value).isLE && (value.order high).isLE
  | .beginsWith start => value.text?.any (startsWith · start)

/-- A condition on the fields of a row. -/
inductive Filter where
  | equal (field : String) (value : Scalar)
  | present (field : String)
  | absent (field : String)
  /-- A text field with this start. -/
  | beginsWith (field start : String)
  deriving DecidableEq, Repr

/-- Whether a row passes a filter. -/
def Filter.passes (filter : Filter) (record : Record) : Bool :=
  match filter with
  | .equal field value => record.fields.get? field = some value
  | .present field => record.fields.contains field
  | .absent field => !record.fields.contains field
  | .beginsWith field start =>
    ((record.fields.get? field).bind Scalar.text?).any (startsWith · start)

/-- Whether a row passes every filter. -/
def passesAll (filters : List Filter) (record : Record) : Bool :=
  filters.all (·.passes record)

end CursorPaging
