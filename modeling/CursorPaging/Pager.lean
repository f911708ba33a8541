import CursorPaging.Traversal

/-!
# Pagers

A result set that can be configured and then walked. Positions and limits are set before the first
walk; every walk starts anew from the configured position.

* `Pager`, `Pager.make`;
* `Pager.setPosition`, `Pager.setPositionWithHashKey`, `Pager.setLimit`;
* **`Pager.iterate`**.
-/

namespace CursorPaging

/-- What walks start from. -/
structure Pager (σ α : Type) where
  source : σ
  limit : Limit
  codec : PositionCodec
  /-- Whether a walk was started. -/
  started : Bool
  /-- Make a record into a result. -/
  materialize : Record → Except PagingError α

namespace Pager

variable {σ α : Type}

/-- A pager without limit, from the start of a source. -/
def make (source : σ) (codec : PositionCodec) (materialize : Record → Except PagingError α) :
    Pager σ α :=
  ⟨source, .unbounded, codec, false, materialize⟩

variable [PageSource σ]

/-- Let the source go on after a key. -/
def setStart (p : Pager σ α) (key : ResumeKey) : Except PagingError Unit × Pager σ α :=
  let (result, source) := PageSource.setStart p.source key
  (result, { p with source })

/-- Go on after the record that a token points at. -/
def setPosition (p : Pager σ α) (token : String) : Except PagingError Unit × Pager σ α :=
  if p.started then (.error (.misuse .positionAfterStart), p)
  else match PageSource.keySchema p.source with
    | .error e => (.error e, p)
    | .ok _ =>
      match p.codec.decode token with
      | .error e => (.error e, p)
      | .ok key => p.setStart key

/-- Go on in a range query after a token that leaves out its hash key. -/
def setPositionWithHashKey (p : Pager σ α) (token : String) (hash : Scalar) :
    Except PagingError Unit × Pager σ α :=
  let kind := PageSource.kind p.source
  if p.started then (.error (.misuse .positionAfterStart), p)
  else if kind ≠ .rangeQuery then (.error (.unsupported kind .separateHashKey), p)
  else match PageSource.hashKeyField p.source with
    | .error e => (.error e, p)
    | .ok hashKey =>
      match p.codec.decode token with
      | .error e => (.error e, p)
      | .ok key => p.setStart ⟨key.fields.insert hashKey hash⟩

/-- Cap how many results each walk returns. -/
def setLimit (p : Pager σ α) (limit : Nat) : Except PagingError Unit × Pager σ α :=
  if p.started then (.error (.misuse .limitAfterStart), p)
  else match Limit.atMost limit with
    | .error e => (.error e, p)
    | .ok limit => (.ok (), { p with limit })

/-- A walk from the configured position. -/
def traversal (p : Pager σ α) : Traversal σ α :=
  Traversal.start p.source p.limit p.codec p.materialize

/-- Start a walk, which freezes the configuration. -/
def iterate (p : Pager σ α) : Traversal σ α × Pager σ α := (p.traversal, { p with started := true })

end Pager

end CursorPaging
