import CursorPaging.Number.Binary64
import CursorPaging.Text.Quoted

/-!
# Scalars

The values that rows and keys hold. Numbers are kept as their decimal text and order by the number
the text spells; text that spells none orders as text.

* `Scalar`, `Scalar.kind`, `Scalar.text?`, `Scalar.number?`, `Scalar.display`;
* **`Scalar.order`**: the order in which a table walks its keys.
-/

namespace CursorPaging

/-- A single tagged value. -/
inductive Scalar where
  | null
  | boolean (value : Bool)
  /-- A number, as its decimal text. -/
  | number (digits : String)
  | text (value : String)
  | bytes (value : List UInt8)
  deriving DecidableEq, Repr

namespace Scalar

/-- The kinds of scalars, in the order in which scalars of different kinds sort. -/
inductive Kind where
  | null
  | boolean
  | number
  | text
  | bytes
  deriving DecidableEq, Repr

/-- The short name of a kind. -/
def Kind.name : Kind → String
  | .null => "NULL"
  | .boolean => "BOOL"
  | .number => "N"
  | .text => "S"
  | .bytes => "B"

/-- The place of a kind among the kinds. -/
def Kind.rank : Kind → Nat
  | .null => 0
  | .boolean => 1
  | .number => 2
  | .text => 3
  | .bytes => 4

def kind : Scalar → Kind
  | .null => .null
  | .boolean _ => .boolean
  | .number _ => .number
  | .text _ => .text
  | .bytes _ => .bytes

/-- The text of a text scalar. -/
def text? : Scalar → Option String
  | .text value => some value
  | _ => none

/-- The number that a numeric scalar spells, if it spells a finite one. -/
def number? : Scalar → Option Binary64
  | .number digits => Binary64.finite? digits
  | _ => none

/-- The order of numeric texts: by value and then by text, or by text alone if one of them spells
no finite number. -/
def numberOrder (a b : String) : Ordering :=
  match Binary64.finite? a, Binary64.finite? b with
  | some x, some y => (x.order y).then (compare a b)
  | _, _ => compare a b

/-- The order of scalars: by kind, and within a kind by value. -/
def order : Scalar → Scalar → Ordering
  | .number a, .number b => numberOrder a b
  | .text a, .text b => compare a b
  | .bytes a, .bytes b => compare a b
  | .boolean a, .boolean b => compare a b
  | a, b => compare a.kind.rank b.kind.rank

/-- A scalar as messages show it. -/
def display : Scalar → String
  | .text value => Quoted.text value
  | .number digits => digits
  | .bytes value => "<" ++ toString value.length ++ " bytes>"
  | .boolean value => if value then "true" else "false"
  | .null => "null"

end Scalar

end CursorPaging
