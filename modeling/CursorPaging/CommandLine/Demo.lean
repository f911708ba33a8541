import CursorPaging.Number.Shortest
import CursorPaging.Settings
import CursorPaging.Table

/-!
# The demonstration table

One partition of rows with ids that sort in the order in which the rows were put in.

* `Demo.rowId`, `Demo.row`, `Demo.key`;
* **`Demo.seed`**: the table of a number of rows;
* `DemoRow`: what a row is printed from.
-/

namespace CursorPaging

namespace Demo

def tableName : String := "demo"

/-- The hash value of every row. -/
def tenant : String := "acme"

def schema : KeySchema := ⟨"tenant", some "id"⟩

/-- The digits of a natural number, with zeros before them up to a width. -/
def padded (width n : Nat) : List Char :=
  let digits := Nat.toDigits 10 n
  List.replicate (width - digits.length) '0' ++ digits

/-- The id of a row: all ids are as long as the last one. -/
def rowId (index rows : Nat) : String :=
  String.ofList ('H' :: '_' :: padded (Nat.toDigits 10 (rows - 1)).length index)

def key (index rows : Nat) : ResumeKey :=
  ⟨FieldMap.ofList [("tenant", .text tenant), ("id", .text (rowId index rows))]⟩

def row (index rows : Nat) : Record :=
  ⟨(key index rows).fields.insert "n" (.number (toString index))⟩

/-- Put some rows into a table. -/
def insertAll (t : Table) : List Record → Except StoreError Table
  | [] => .ok t
  | row :: rest =>
    match t.insert row with
    | .error e => .error e
    | .ok (_, t) => insertAll t rest

/-- The table of a number of rows. -/
def seed (settings : PagingSettings) (rows : Nat) : Except StoreError Table :=
  insertAll (Table.make tableName schema settings.pageSize settings.batchMax)
    ((List.range rows).map (row · rows))

end Demo

/-- A row as it is printed. -/
structure DemoRow where
  id : String
  n : Binary64
  deriving DecidableEq, Repr

/-- The id and the number of a row. -/
def DemoRow.ofRecord (record : Record) : Except PagingError DemoRow :=
  match (record.fields.get? "id").bind Scalar.text? with
  | none => .error (.materialize "demo row has no id")
  | some id =>
    match (record.fields.get? "n").bind Scalar.number? with
    | none => .error (.materialize "demo row has no n")
    | some n => .ok ⟨id, n⟩

end CursorPaging
