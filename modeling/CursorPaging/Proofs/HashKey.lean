import CursorPaging.Proofs.Pager
import CursorPaging.Proofs.Position

/-!
# Positions without their hash key

A query fixes the hash value of every row that it hands out, so a position can leave it out and have
it put back later. The two ways to go on meet in the same start key.

* `Positioned`, `positioned_of_calls`: the key behind both tokens of a walk;
* `setPosition_token`, `setPositionWithHashKey_short`: a fresh pager goes on after the same key;
  `setPosition_short`, `setPositionWithHashKey_other`: what it refuses;
* **`hashKey_travels`**: for every walk over a query of a table that edits lead to.
-/

namespace CursorPaging

variable {α β : Type} {t : Table} {q : QueryRequest} {key : ResumeKey} {token short : String}

/-- The key of a row that the query hands out, and the two tokens of its position. -/
structure Positioned (t : Table) (q : QueryRequest) (codec : PositionCodec) (token short : String)
    (key : ResumeKey) : Prop where
  located : ∃ range, t.schema.Locates key.fields (q.hash, range)
  whole : codec.encode key = .ok token
  short : codec.encode ⟨key.fields.erase t.schema.hashKey⟩ = .ok short

theorem positioned_of_calls (h : t.WellFormed) {source : QuerySource Table}
    (hover : source.Over t q)
    {limit : Limit} {codec : PositionCodec} {m : Record → Except PagingError α} {fuel : Nat}
    {cs : List Call} {answers : List (Answer α)} {walk : Traversal (QuerySource Table) α}
    (hcalls : (Traversal.start source limit codec m).calls fuel cs = some (answers, walk))
    (htoken : walk.position = .ok (some token))
    (hshort : walk.positionWithoutHashKey = .ok (some short)) :
    ∃ key, Positioned t q walk.codec token short key := by
  obtain ⟨e, he, key, hcurrent, hproject, hwhole⟩ := row_of_position hover hcalls htoken
  obtain ⟨rest, hrest, hcut⟩ := Traversal.encodePosition_eq_some hshort
  obtain ⟨other, hother, rfl⟩ :=
    Traversal.resumeKey_short (keySchema_of_calls hover hcalls) hrest
  -- the row did not change in between, so it is the same key
  obtain rfl : key = other := Option.some.inj (Except.ok.inj (hcurrent.symm.trans hother))
  obtain ⟨found, hfound, hlocated, -⟩ := KeySchema.exists_project (h.located_partition he)
  obtain rfl : found = key := Except.ok.inj (hfound.symm.trans hproject)
  exact ⟨found, ⟨e.1, hlocated⟩, hwhole, hcut⟩

/-! ## Fresh pagers -/

/-- A pager whose source goes on after a key. -/
def Pager.startingAfter (p : Pager (QuerySource Table) β) (key : ResumeKey) :
    Pager (QuerySource Table) β :=
  { p with source := { p.source with cursor := { p.source.cursor with startKey := some key } } }

namespace Positioned

variable {writer : PositionCodec} {p : Pager (QuerySource Table) β}

theorem setStart_key (h : Positioned t q writer token short key) (hover : p.source.Over t q) :
    p.setStart key = (.ok (), p.startingAfter key) := by
  obtain ⟨range, hlocated⟩ := h.located
  rw [← hover.schema, ← hover.request] at hlocated
  have hstart : PageSource.setStart p.source key = _ := QuerySource.setStart_of_locates hlocated
  rw [Pager.setStart, hstart]
  rfl

theorem setPosition_token (h : Positioned t q writer token short key) (hover : p.source.Over t q)
    (hstarted : p.started = false) (hsize : Utf8.size token ≤ p.codec.maxTokenLength) :
    p.setPosition token = (.ok (), p.startingAfter key) := by
  have hdecode := PositionCodec.decode_of_encode h.whole hsize
  rw [Pager.setPosition_of_decode hstarted rfl hdecode, h.setStart_key hover]

/-- The key without its hash value is the whole key once the value is put back. -/
theorem setPositionWithHashKey_short (h : Positioned t q writer token short key)
    (hover : p.source.Over t q) (hstarted : p.started = false)
    (hsize : Utf8.size short ≤ p.codec.maxTokenLength) :
    p.setPositionWithHashKey short q.hash = (.ok (), p.startingAfter key) := by
  have hdecode := PositionCodec.decode_of_encode h.short hsize
  obtain ⟨range, hlocated⟩ := h.located
  rw [Pager.setPositionWithHashKey_of_decode hstarted rfl rfl hdecode, hover.schema,
    FieldMap.insert_erase hlocated.hash]
  exact h.setStart_key hover

theorem setPosition_short (h : Positioned t q writer token short key) (hover : p.source.Over t q)
    (hstarted : p.started = false) (hsize : Utf8.size short ≤ p.codec.maxTokenLength) :
    p.setPosition short = (.error (.missingKeyField t.schema.hashKey), p) := by
  have hdecode := PositionCodec.decode_of_encode h.short hsize
  have hmissing :
      (key.fields.erase t.schema.hashKey).get? p.source.cursor.schema.hashKey = none := by
    rw [hover.schema, FieldMap.get?_erase, if_pos rfl]
  have hstart : PageSource.setStart p.source ⟨key.fields.erase t.schema.hashKey⟩ = _ :=
    QuerySource.setStart_missing hmissing
  rw [Pager.setPosition_of_decode hstarted rfl hdecode, Pager.setStart_of_refused hstart,
    hover.schema]

theorem setPositionWithHashKey_other (h : Positioned t q writer token short key)
    (hover : p.source.Over t q) (hstarted : p.started = false)
    (hsize : Utf8.size short ≤ p.codec.maxTokenLength) {hash : Scalar} (hne : hash ≠ q.hash) :
    p.setPositionWithHashKey short hash =
      (.error (.corruptPosition (.otherPartition t.schema.hashKey hash q.hash)), p) := by
  have hdecode := PositionCodec.decode_of_encode h.short hsize
  have hget : ((key.fields.erase t.schema.hashKey).insert t.schema.hashKey hash).get?
      t.schema.hashKey = some hash := by rw [FieldMap.get?_insert, if_pos rfl]
  rw [Pager.setPositionWithHashKey_of_decode hstarted rfl rfl hdecode, hover.schema]
  exact Pager.setStart_other hover hget hne

end Positioned

/-- **A position loses nothing without its hash key.** A pager goes on after the same key from the
short token, given the hash value of the query, as from the full one. -/
theorem hashKey_travels (h : t.Reached) {source : QuerySource Table}
    (hsource : QuerySource.make t q = .ok source) {codec reader : PositionCodec}
    {m : Record → Except PagingError α} {settings : List Setting} {fuel : Nat} {cs : List Call}
    {answers : List (Answer α)} {walk : Traversal (QuerySource Table) α}
    (hcalls : ((Pager.make source codec m).applyAll settings).iterate.1.calls fuel cs =
      some (answers, walk))
    (htoken : walk.position = .ok (some token))
    (hshort : walk.positionWithoutHashKey = .ok (some short))
    (hsize : Utf8.size token ≤ reader.maxTokenLength)
    (hsize' : Utf8.size short ≤ reader.maxTokenLength) (limit : Limit)
    (m' : Record → Except PagingError β) :
    let p : Pager (QuerySource Table) β := { Pager.make source reader m' with limit }
    ∃ key : ResumeKey, key.fields.get? t.schema.hashKey = some q.hash ∧
      reader.decode token = .ok key ∧
      reader.decode short = .ok ⟨key.fields.erase t.schema.hashKey⟩ ∧
      p.setPosition token = (.ok (), p.startingAfter key) ∧
      p.setPositionWithHashKey short q.hash = (.ok (), p.startingAfter key) ∧
      p.setPosition short = (.error (.missingKeyField t.schema.hashKey), p) ∧
      ∀ hash, hash ≠ q.hash → p.setPositionWithHashKey short hash =
        (.error (.corruptPosition (.otherPartition t.schema.hashKey hash q.hash)), p) := by
  intro p
  have hover : p.source.Over t q := QuerySource.over_make hsource
  have hwalk : (((Pager.make source codec m).applyAll settings).source).Over t q :=
    Pager.applyAll_keeps QuerySource.over_setStart settings hover
  obtain ⟨key, hkey⟩ := positioned_of_calls h.wellFormed hwalk hcalls htoken hshort
  obtain ⟨range, hlocated⟩ := hkey.located
  exact ⟨key, hlocated.hash, PositionCodec.decode_of_encode hkey.whole hsize,
    PositionCodec.decode_of_encode hkey.short hsize', hkey.setPosition_token hover rfl hsize,
    hkey.setPositionWithHashKey_short hover rfl hsize', hkey.setPosition_short hover rfl hsize',
    fun _ hne => hkey.setPositionWithHashKey_other hover rfl hsize' hne⟩

/-- Hash values are compared by their text: `1.0` is not the hash value `1` of the query. -/
theorem hashKey_travels_by_text :
    let row (range : String) : Record := ⟨.ofList [("h", .number "1"), ("r", .number range)]⟩
    let t := (Table.make "t" ⟨"h", some "r"⟩ 1 1).editAll [.insert (row "7"), .insert (row "8")]
    let q : QueryRequest := ⟨"t", .number "1", none, [], none, true⟩
    let p : Pager (QuerySource Table) Record := Pager.make ⟨t, q, .start t.schema⟩ .default .ok
    (p.setPosition "aD1OMSZyPU43").1 = .ok () ∧
      p.setPositionWithHashKey "cj1ONw%3D%3D" (.number "1") = p.setPosition "aD1OMSZyPU43" ∧
      p.setPositionWithHashKey "cj1ONw%3D%3D" (.number "1.0") =
        (.error (.corruptPosition (.otherPartition "h" (.number "1.0") (.number "1"))), p) := by
  intro row t q p
  have hreached : t.Reached := ⟨"t", _, 1, 1, _, by decide +kernel, rfl⟩
  have hsource : QuerySource.make t q = .ok p.source := rfl
  let run := (p.applyAll [.limit 2]).iterate.1.calls 2 [.ask .next]
  have hsome : run.isSome = true := by decide +kernel
  obtain ⟨⟨answers, walk⟩, hcalls⟩ := Option.isSome_iff_exists.1 hsome
  have htokens : run.map (fun r => (r.2.position, r.2.positionWithoutHashKey)) =
      some (.ok (some "aD1OMSZyPU43"), .ok (some "cj1ONw%3D%3D")) := by decide +kernel
  rw [hcalls] at htokens
  obtain ⟨htoken, hshort⟩ := Prod.mk.inj (Option.some.inj htokens)
  have hsize : Utf8.size "aD1OMSZyPU43" ≤ p.codec.maxTokenLength := by decide +kernel
  have hsize' : Utf8.size "cj1ONw%3D%3D" ≤ p.codec.maxTokenLength := by decide +kernel
  obtain ⟨key, -, -, -, hset, hset', -, hother⟩ := hashKey_travels hreached hsource hcalls htoken
    hshort hsize hsize' p.limit p.materialize
  exact ⟨congrArg Prod.fst hset, hset'.trans hset.symm, hother _ (by decide)⟩

end CursorPaging
