import CursorPaging.Number.Binary64

/-!
# Documents

The values that settings are written in, whatever the notation.

* `Document`, `Document.member?`, `Document.field?`;
* `Document.merge`: a table put over another keeps the members that it does not name;
* `Step`, **`Document.setAt`**: put a value at the end of a path.
-/

namespace CursorPaging

-- powers are those of the core library
attribute [local instance (10000)] instPowNat

/-- Put an entry into a list, in place of the one of that name if there is one. -/
def setEntry {α : Type} (name : String) (value : α) : List (String × α) → List (String × α)
  | [] => [(name, value)]
  | (n, v) :: rest => if n = name then (n, value) :: rest else (n, v) :: setEntry name value rest

/-- A value in a settings file or variable. -/
inductive Document where
  | null
  | boolean (value : Bool)
  | integer (value : Int)
  | float (value : Binary64)
  | text (value : String)
  | list (items : List Document)
  | table (members : List (String × Document))
  deriving Inhabited

namespace Document

/-- The members of a table, none for what is no table. -/
def members : Document → List (String × Document)
  | .table members => members
  | _ => []

/-- The items of a list, none for what is no list. -/
def items : Document → List Document
  | .list items => items
  | _ => []

/-- A member of a table. -/
def member? (name : String) (document : Document) : Option Document :=
  document.members.lookup name

/-- A field of a group: a member of a table by its name, an item of a list by its position. -/
def field? (position : Nat) (name : String) : Document → Option Document
  | .table members => members.lookup name
  | .list items => items[position]?
  | _ => none

/-- Whether a document can stand for a group of fields. -/
def isGroup : Document → Bool
  | .table _ => true
  | .list _ => true
  | _ => false

/-- A whole number; one of more than 64 bits with sign is kept as the nearest float. -/
def ofInt (n : Int) : Document :=
  if -2 ^ (63 : Nat) ≤ n ∧ n < 2 ^ (63 : Nat) then .integer n
  else .float (Binary64.ofDecimal ⟨n < 0, n.natAbs, 0⟩)

/-! ## Changing -/

mutual

/-- Put a value in place of what is there. The members of a table are put one by one. -/
def merge : Document → Option Document → Document
  | .table members, present => mergeMembers members (present.getD (.table []))
  | value, _ => value

/-- Put members into a table. What is no table makes way for one. -/
def mergeMembers : List (String × Document) → Document → Document
  | [], document => document
  | (name, value) :: rest, document =>
    mergeMembers rest
      (.table (setEntry name (merge value (document.member? name)) document.members))

end

end Document

/-- A step to a document inside another. -/
inductive Step where
  | member (name : String)
  /-- An item of a list, counted from the end if negative. -/
  | item (index : Int)
  deriving DecidableEq, Repr

namespace Document

/-- A list that is long enough to have an item, with nothing at the new places. -/
def extend (items : List Document) (index : Nat) : List Document :=
  items ++ List.replicate (index + 1 - items.length) .null

/-- The place of an item in a list of some length. -/
def place (index : Int) (length : Nat) : Nat :=
  if 0 ≤ index then index.toNat else length - index.natAbs

/-- Put a value at the end of a path. What is no table or list on the way makes way for one. -/
def setAt (document : Document) : List Step → Document → Document
  | [], value => value
  | [.member name], value =>
    .table (setEntry name (value.merge (document.member? name)) document.members)
  | .member name :: path, value =>
    let inner := (document.member? name).getD .null
    .table (setEntry name (inner.setAt path value) document.members)
  | .item index :: path, value =>
    let n := place index document.items.length
    let items := extend document.items n
    .list (items.set n ((items.getD n .null).setAt path value))

end Document

end CursorPaging
