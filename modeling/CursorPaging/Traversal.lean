import CursorPaging.Limit
import CursorPaging.Position
import CursorPaging.Source

/-!
# Traversals

A walk over the records of a page source, one at a time. Pages are fetched one by one, only when
the records of the last one are used up. The position is that of the last record handed out, never
of one that was only looked at.

A source may go on with empty pages for as long as it likes, so a call takes `fuel`, the most pages
it may fetch; `none` says that it has not come back by then.

* `Phase`, `Traversal`, `Traversal.start`;
* `Traversal.lookAhead`, `Traversal.hasNext`;
* **`Traversal.nextItem`**, `Traversal.next`;
* `Traversal.hasResultsPastLimit`;
* **`Traversal.resumeKey`**, `Traversal.position`, `Traversal.positionWithoutHashKey`.
-/

namespace CursorPaging

/-- Where a walk is. -/
inductive Phase where
  /-- Nothing was asked for yet. -/
  | fresh
  /-- Records of the last page are left. -/
  | buffering
  /-- The last page is used up and it is open whether there is more. -/
  | lookingAhead
  /-- The source has no more records. -/
  | exhausted
  /-- The limit is used up. -/
  | limitReached
  /-- A fetch failed and the walk is over. -/
  | failed
  deriving DecidableEq, Repr

/-- A walk over the records of a source, each made into a result. -/
structure Traversal (σ α : Type) where
  source : σ
  /-- The records that were fetched and not handed out. -/
  buffer : List Record
  limit : Limit
  /-- The last record that was handed out. -/
  lastExamined : Option Record
  phase : Phase
  /-- How many pages were fetched. -/
  pages : Nat
  codec : PositionCodec
  /-- Make a record into a result. -/
  materialize : Record → Except PagingError α

namespace Traversal

variable {σ α : Type}

/-- A walk before its first step. -/
def start (source : σ) (limit : Limit) (codec : PositionCodec)
    (materialize : Record → Except PagingError α) : Traversal σ α :=
  ⟨source, [], limit, none, .fresh, 0, codec, materialize⟩

variable [PageSource σ]

/-! ## Looking ahead -/

/-- Fetch until there are records, the source runs dry, or a fetch fails. Empty pages are skipped
for as long as the source says that more may exist and the last page has a continuation. -/
def fetchRecords : Nat → Traversal σ α → Option (Except PagingError Bool × Traversal σ α)
  | fuel, t =>
    if PageSource.hasMore t.source then
      match fuel with
      | 0 => none
      | fuel + 1 =>
        match PageSource.fetchPage t.source with
        | (.error e, source) => some (.error e, { t with source, phase := .failed })
        | (.ok page, source) =>
          let t := { t with source, pages := t.pages + 1 }
          if !page.records.isEmpty then some (.ok true, { t with buffer := t.buffer ++ page.records })
          else if page.continuation.isMore then fetchRecords fuel t
          else some (.ok false, t)
    else some (.ok false, t)

/-- Make sure that a record is buffered if the source has one left. -/
def lookAhead (fuel : Nat) (t : Traversal σ α) :
    Option (Except PagingError Bool × Traversal σ α) :=
  if !t.buffer.isEmpty then some (.ok true, t)
  else if t.phase = .limitReached then fetchRecords fuel t
  else fetchRecords fuel { t with phase := .lookingAhead }

/-- Whether another result can be handed out. A limit that is used up answers without the
source. -/
def hasNext (fuel : Nat) (t : Traversal σ α) : Option (Except PagingError Bool × Traversal σ α) :=
  if t.phase = .failed then some (.error (.misuse .alreadyFailed), t)
  else if t.limit.isReached then some (.ok false, { t with phase := .limitReached })
  else match t.lookAhead fuel with
    | none => none
    | some (.error e, t) => some (.error e, t)
    | some (.ok true, t) => some (.ok true, { t with phase := .buffering })
    | some (.ok false, t) => some (.ok false, { t with phase := .exhausted })

/-! ## Handing out -/

/-- The walk after the first record of its buffer was handed out. -/
def take (record : Record) (rest : List Record) (t : Traversal σ α) : Traversal σ α :=
  let limit := t.limit.consume
  { t with
    buffer := rest
    limit
    lastExamined := some record
    phase := if limit.isReached then .limitReached else t.phase }

/-- The next result. It is an error to ask for one when there is none. -/
def nextItem (fuel : Nat) (t : Traversal σ α) : Option (Except PagingError α × Traversal σ α) :=
  if t.limit.isReached then some (.error (.limitReached (t.limit.requested.getD 0)), t)
  else match t.hasNext fuel with
    | none => none
    | some (.error e, t) => some (.error e, t)
    | some (.ok false, t) => some (.error (.misuse .nothingLeft), t)
    | some (.ok true, t) =>
      match t.buffer with
      | [] => some (.error (.misuse .nothingLeft), t)
      | record :: rest => some (t.materialize record, t.take record rest)

/-- The next result if there is one. A walk that failed has told its error and ends. -/
def next (fuel : Nat) (t : Traversal σ α) :
    Option (Option (Except PagingError α) × Traversal σ α) :=
  if t.phase = .failed then some (none, t)
  else match t.hasNext fuel with
    | none => none
    | some (.error e, t) => some (some (.error e), t)
    | some (.ok false, t) => some (none, t)
    | some (.ok true, t) =>
      match t.nextItem fuel with
      | none => none
      | some (item, t) => some (some item, t)

/-- Up to `max` results, to the end of the walk at most. -/
def collect (fuel : Nat) : Nat → Traversal σ α →
    Option (List (Except PagingError α) × Traversal σ α)
  | 0, t => some ([], t)
  | max + 1, t =>
    match t.next fuel with
    | none => none
    | some (none, t) => some ([], t)
    | some (some item, t) =>
      match collect fuel max t with
      | none => none
      | some (items, t) => some (item :: items, t)

/-- Whether there are results past the limit. Once the limit is used up this looks one page past
it; what it sees is not handed out and does not move the position. -/
def hasResultsPastLimit (fuel : Nat) (t : Traversal σ α) :
    Option (Except PagingError Bool × Traversal σ α) :=
  if !t.limit.isBounded then some (.error .noLimit, t)
  else if !t.limit.isReached then t.hasNext fuel
  else if t.phase = .failed then some (.error (.misuse .alreadyFailed), t)
  else lookAhead fuel { t with phase := .limitReached }

/-! ## Positions -/

/-- Whether the source can leave the hash key out of its positions: a range query whose table has
another key field. -/
def checkRemoveHashKey (t : Traversal σ α) (schema : KeySchema) : Except PagingError Unit :=
  let kind := PageSource.kind t.source
  if kind ≠ .rangeQuery then .error (.unsupported kind .removeHashKey)
  else if schema.rangeKey = none then .error (.unsupported kind .removeOnlyKeyField)
  else .ok ()

/-- The key of the last record handed out, unless nothing is left to go on with. -/
def currentKey (t : Traversal σ α) (schema : KeySchema) : Except PagingError (Option ResumeKey) :=
  if t.phase = .exhausted then .ok none
  else match t.lastExamined with
    | none => .ok none
    | some record =>
      match record.project schema.fields with
      | .ok key => .ok (some key)
      | .error field => .error (.missingKeyField field)

/-- The key to go on after, perhaps without its hash key. -/
def resumeKey (removeHashKey : Bool) (t : Traversal σ α) :
    Except PagingError (Option ResumeKey) :=
  match PageSource.keySchema t.source with
  | .error e => .error e
  | .ok schema =>
    if removeHashKey then
      match t.checkRemoveHashKey schema with
      | .error e => .error e
      | .ok _ => (t.currentKey schema).map (·.map fun key => ⟨key.fields.erase schema.hashKey⟩)
    else t.currentKey schema

/-- The token of the key to go on after. -/
def encodePosition (removeHashKey : Bool) (t : Traversal σ α) :
    Except PagingError (Option String) :=
  match t.resumeKey removeHashKey with
  | .error e => .error e
  | .ok none => .ok none
  | .ok (some key) => (t.codec.encode key).map some

/-- The token of the current position. -/
def position (t : Traversal σ α) : Except PagingError (Option String) := t.encodePosition false

/-- The token of the current position without its hash key, which a range query fixes anyway. -/
def positionWithoutHashKey (t : Traversal σ α) : Except PagingError (Option String) :=
  t.encodePosition true

end Traversal

end CursorPaging
