import CursorPaging.Scalar

/-!
# Entries in key order

Association lists whose keys ascend in the order of scalars. A key is looked for from the front, up
to the first entry that does not come before it.

* `Ordered.get?`, `Ordered.insert`, `Ordered.erase`;
* `Ordered.after`, `Ordered.before`, `Ordered.startingAt`: the entries on one side of a key.
-/

namespace CursorPaging

namespace Ordered

variable {α : Type}

/-- The value of a key. -/
def get? (key : Scalar) : List (Scalar × α) → Option α
  | [] => none
  | (k, v) :: rest =>
    match key.order k with
    | .gt => get? key rest
    | .eq => some v
    | .lt => none

/-- Set the value of a key. -/
def insert (key : Scalar) (value : α) : List (Scalar × α) → List (Scalar × α)
  | [] => [(key, value)]
  | (k, v) :: rest =>
    match key.order k with
    | .gt => (k, v) :: insert key value rest
    | .eq => (k, value) :: rest
    | .lt => (key, value) :: (k, v) :: rest

/-- Leave a key out. -/
def erase (key : Scalar) : List (Scalar × α) → List (Scalar × α)
  | [] => []
  | (k, v) :: rest =>
    match key.order k with
    | .gt => (k, v) :: erase key rest
    | .eq => rest
    | .lt => (k, v) :: rest

/-- The entries after a key, stored or not. -/
def after (key : Scalar) : List (Scalar × α) → List (Scalar × α)
  | [] => []
  | (k, v) :: rest =>
    match key.order k with
    | .gt => after key rest
    | .eq => rest
    | .lt => (k, v) :: rest

/-- The entries before a key, stored or not. -/
def before (key : Scalar) : List (Scalar × α) → List (Scalar × α)
  | [] => []
  | (k, v) :: rest =>
    match key.order k with
    | .gt => (k, v) :: before key rest
    | _ => []

/-- The entries from a key on, stored or not. -/
def startingAt (key : Scalar) : List (Scalar × α) → List (Scalar × α)
  | [] => []
  | (k, v) :: rest =>
    match key.order k with
    | .gt => startingAt key rest
    | _ => (k, v) :: rest

end Ordered

end CursorPaging
