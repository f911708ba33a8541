import CursorPaging.Proofs.Table.Fresh

/-!
# Walks over a table that changes

Others edit a table while a walk reads it. Edits come in between calls and right before each fetch
of a call, and every fetch reads the table as it is then. A walk may be given up at any time and
opened again from the token of its position.

* `LiveTable`: a table, the edits that are about to come in, and what was read from it;
* `Session`: a walk and the results handed out so far, by it and by those before it;
* **`Event`**, `Session.step`, **`Session.run`**: what may happen, in any order.
-/

namespace CursorPaging

/-- A table that is edited while it is read. -/
structure LiveTable where
  table : Table
  /-- The edits that come in right before each of the next fetches. -/
  arriving : List (List Table.Edit)
  /-- The pages that were read, each with the table that it was read from. -/
  seen : List (Table × PageOutput)

namespace LiveTable

/-- The table as the next fetch finds it. -/
def settle (s : LiveTable) : LiveTable :=
  match s.arriving with
  | [] => s
  | edits :: rest => { s with table := s.table.editAll edits, arriving := rest }

/-- Note a page that was read. -/
def note (s : LiveTable) :
    Except StoreError PageOutput → Except StoreError PageOutput × LiveTable
  | .ok output => (.ok output, { s with seen := s.seen ++ [(s.table, output)] })
  | .error e => (.error e, s)

instance : WalkStore LiveTable where
  keySchema s := s.table.keySchema
  query s request start := s.settle.note (s.settle.table.query request start)
  scan s request start := s.settle.note (s.settle.table.scan request start)

theorem page_eq_note (r : Request) (s : LiveTable) (start : Option ResumeKey) :
    r.page s start = s.settle.note (r.page s.settle.table start).1 := by
  cases r <;> rfl

end LiveTable

/-- The walk over a request with something done to its table. -/
def Traversal.onTable {α : Type} (f : LiveTable → LiveTable)
    (walk : Traversal (WalkSource LiveTable) α) : Traversal (WalkSource LiveTable) α :=
  { walk with source := walk.source.put (f walk.source.store) walk.source.cursor }

/-- A walk over a table that changes, and the results handed out so far. -/
structure Session (α : Type) where
  walk : Traversal (WalkSource LiveTable) α
  handed : List α

/-- What may happen. -/
inductive Event where
  | edit (change : Table.Edit)
  /-- A call, which may fetch so many pages, and the edits that come in before each fetch. -/
  | ask (fuel : Nat) (call : Ask) (arriving : List (List Table.Edit))
  /-- The walk is given up, and another with these pages and this limit goes on from its token. -/
  | restart (pageSize limit : Option Nat)

/-- The edits that come in with an event. -/
def Event.edits : Event → List Table.Edit
  | .edit change => [change]
  | .ask _ _ arriving => arriving.flatten
  | .restart _ _ => []

namespace Session

variable {α : Type}

/-- The pages that were read, each with the table that it was read from. -/
def seen (s : Session α) : List (Table × PageOutput) := s.walk.source.store.seen

/-- The first walk over a table. -/
def start (t : Table) (r : Request) (codec : PositionCodec) (m : Record → Except PagingError α)
    (limit : Option Nat) : Except PagingError (Session α) :=
  (openWalk ⟨t, [], []⟩ r codec m limit none).map (⟨·, []⟩)

/-- The session after an event, if it can happen: a call comes back, and a walk that is given up has
a token, which is taken. -/
def step (r : Request) (codec : PositionCodec) (m : Record → Except PagingError α)
    (s : Session α) : Event → Option (Session α)
  | .edit change =>
    some { s with walk := s.walk.onTable fun t => { t with table := t.table.edit change } }
  | .ask fuel call arriving =>
    ((s.walk.onTable fun t => { t with arriving }).ask fuel call).map fun a =>
      ⟨a.2, s.handed ++ a.1.results⟩
  | .restart pageSize limit =>
    match s.walk.position with
    | .ok (some token) =>
      match openWalk s.walk.source.store (r.withPageSize pageSize) codec m limit (some token) with
      | .ok walk => some ⟨walk, s.handed⟩
      | .error _ => none
    | _ => none

/-- The session after some events. -/
def run (r : Request) (codec : PositionCodec) (m : Record → Except PagingError α) :
    List Event → Session α → Option (Session α)
  | [], s => some s
  | event :: rest, s => (s.step r codec m event).bind (run r codec m rest)

end Session

end CursorPaging
