import CursorPaging.Error

/-!
# Limits

How many results a walk may still return. No limit is kept apart from any large one, so that a
check for results past the limit can tell the two apart.

* `Limit`, `Limit.unbounded`, `Limit.atMost`, `Limit.consume`.
-/

namespace CursorPaging

/-- The limit that was asked for and what is left of it. -/
structure Limit where
  requested : Option Nat
  remaining : Option Nat
  deriving DecidableEq, Repr

namespace Limit

def unbounded : Limit := ⟨none, none⟩

/-- At most `n` results, of which there must be one. -/
def atMost (n : Nat) : Except PagingError Limit :=
  if n = 0 then .error (.invalidLimit n) else .ok ⟨some n, some n⟩

def isBounded (limit : Limit) : Bool := limit.requested.isSome

/-- Whether every result that may be returned was. -/
def isReached (limit : Limit) : Bool := limit.remaining = some 0

/-- Count one returned result. -/
def consume (limit : Limit) : Limit := { limit with remaining := limit.remaining.map (· - 1) }

end Limit

end CursorPaging
