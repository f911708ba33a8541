import CursorPaging.Proofs.HashKey
import CursorPaging.Proofs.Table.Filed

/-!
# Positions of another partition

A full position names the partition that it was taken in, and a query over another one refuses it. A
separate hash value takes the place of the one in the position, so with it a query goes by that
value alone: it refuses every value but its own, and with its own it accepts a position of any
partition.

* `Elsewhere`, `elsewhere_of_calls`: the key behind a token of another partition;
* `setPositionWithHashKey_refused_other`: a separate hash value of another partition is refused,
  whatever the token;
* `Elsewhere.setPosition_refused`, `Elsewhere.setPosition`, `Elsewhere.setPositionWithHashKey`: what
  a pager does with the token;
* **`other_partition_refused`**.
-/

namespace CursorPaging

variable {α β : Type} {t : Table} {q : QueryRequest} {token : String} {key : ResumeKey}
  {hash : Scalar}

/-! ## Keys of another partition -/

/-- The whole key of a row under some hash value, and its token. -/
structure Elsewhere (schema : KeySchema) (hash : Scalar) (writer : PositionCodec) (token : String)
    (key : ResumeKey) : Prop where
  hash : key.fields.get? schema.hashKey = some hash
  whole : ∀ field ∈ schema.fields, key.fields.contains field = true
  encode : writer.encode key = .ok token

/-- A token of a walk is that of a whole key of its partition. -/
theorem elsewhere_of_calls (h : t.Filed) {source : QuerySource Table} (hover : source.Over t q)
    {limit : Limit} {codec : PositionCodec} {m : Record → Except PagingError α} {fuel : Nat}
    {cs : List Call} {answers : List (Answer α)} {walk : Traversal (QuerySource Table) α}
    (hcalls : (Traversal.start source limit codec m).calls fuel cs = some (answers, walk))
    (htoken : walk.position = .ok (some token)) :
    ∃ key, Elsewhere t.schema q.hash walk.codec token key := by
  obtain ⟨e, he, key, -, hproject, hencode⟩ := row_of_position hover hcalls htoken
  have hnames := h.names he
  obtain ⟨fields, hfields, rfl⟩ : ∃ fields, e.2.fields.project t.schema.fields = .ok fields ∧
      (⟨fields⟩ : ResumeKey) = key := by
    rw [Record.project] at hproject
    cases hfields : e.2.fields.project t.schema.fields with
    | error field =>
      rw [hfields] at hproject
      cases hproject
    | ok fields =>
      rw [hfields] at hproject
      exact ⟨fields, rfl, Except.ok.inj hproject⟩
  have hget := FieldMap.get?_project hfields
  refine ⟨⟨fields⟩, ?_, fun field hfield => ?_, hencode⟩
  · rw [hget, if_pos (KeySchema.mem_fields.2 (.inl rfl)), hnames.hash]
  · obtain ⟨value, hvalue, -⟩ := hnames.get? hfield
    exact FieldMap.contains_iff.2 ⟨value, by rw [hget, if_pos hfield, hvalue]⟩

/-! ## What a pager does with them -/

variable {p : Pager (QuerySource Table) β}

/-- **A separate hash value of another partition** is refused, whatever the token. -/
theorem setPositionWithHashKey_refused_other (hover : p.source.Over t q) (hne : hash ≠ q.hash)
    (token : String) : ∃ e, p.setPositionWithHashKey token hash = (.error e, p) := by
  refine Pager.setPositionWithHashKey_refused fun field key hfield _ => ?_
  obtain rfl : p.source.cursor.schema.hashKey = field := Except.ok.inj hfield
  have hget : (key.fields.insert p.source.cursor.schema.hashKey hash).get? t.schema.hashKey =
      some hash := by rw [hover.schema, FieldMap.get?_insert, if_pos rfl]
  exact ⟨_, Pager.setStart_other hover hget hne⟩

namespace Elsewhere

variable {writer : PositionCodec}

theorem setStart (h : Elsewhere t.schema hash writer token key) (hover : p.source.Over t q)
    (hne : hash ≠ q.hash) : p.setStart key =
      (.error (.corruptPosition (.otherPartition t.schema.hashKey hash q.hash)), p) :=
  Pager.setStart_other hover h.hash hne

theorem setPosition_refused (h : Elsewhere t.schema hash writer token key)
    (hover : p.source.Over t q) (hne : hash ≠ q.hash) :
    ∃ e, p.setPosition token = (.error e, p) := by
  refine Pager.setPosition_refused fun other hother => ?_
  have hdecode := PositionCodec.decode_of_encode h.encode (PositionCodec.size_le_of_decode hother)
  obtain rfl : key = other := Except.ok.inj (hdecode.symm.trans hother)
  exact ⟨_, h.setStart hover hne⟩

theorem setPosition (h : Elsewhere t.schema hash writer token key) (hover : p.source.Over t q)
    (hne : hash ≠ q.hash) (hstarted : p.started = false)
    (hsize : Utf8.size token ≤ p.codec.maxTokenLength) : p.setPosition token =
      (.error (.corruptPosition (.otherPartition t.schema.hashKey hash q.hash)), p) := by
  have hdecode := PositionCodec.decode_of_encode h.encode hsize
  rw [Pager.setPosition_of_decode hstarted rfl hdecode, h.setStart hover hne]

theorem setPositionWithHashKey (h : Elsewhere t.schema hash writer token key)
    (hover : p.source.Over t q) (hstarted : p.started = false)
    (hsize : Utf8.size token ≤ p.codec.maxTokenLength) : p.setPositionWithHashKey token q.hash =
      (.ok (), p.startingAfter ⟨key.fields.insert t.schema.hashKey q.hash⟩) := by
  have hdecode := PositionCodec.decode_of_encode h.encode hsize
  rw [Pager.setPositionWithHashKey_of_decode hstarted rfl rfl hdecode, hover.schema, Pager.setStart]
  have hhash : (key.fields.insert t.schema.hashKey q.hash).get? p.source.cursor.schema.hashKey =
      some p.source.request.hash := by
    rw [hover.schema, hover.request, FieldMap.get?_insert, if_pos rfl]
  have hwhole : ∀ field ∈ p.source.cursor.schema.fields,
      (key.fields.insert t.schema.hashKey q.hash).contains field = true := by
    rw [hover.schema]
    intro field hfield
    rw [FieldMap.contains_iff]
    simp only [FieldMap.get?_insert]
    split_ifs
    · exact ⟨_, rfl⟩
    · exact FieldMap.contains_iff.1 (h.whole field hfield)
  have hstart : PageSource.setStart p.source
      ⟨key.fields.insert t.schema.hashKey q.hash⟩ = _ :=
        QuerySource.setStart_of_contains hhash hwhole
  rw [hstart]
  rfl

end Elsewhere

/-- **A position of another partition is refused**, but for the hash value of the query. With that a
pager goes on after the key in the token, as if it were of its own partition. -/
theorem other_partition_refused {name : String} {schema : KeySchema} {pageSize batchMax : Nat}
    {edits : List Table.Edit} {t' : Table} {q' : QueryRequest} {source source' : QuerySource Table}
    (hsource : QuerySource.make ((Table.make name schema pageSize batchMax).editAll edits) q =
      .ok source)
    (hsource' : QuerySource.make t' q' = .ok source') (hschema : t'.schema = schema)
    (hne : q.hash ≠ q'.hash) {codec : PositionCodec} {m : Record → Except PagingError α}
    {settings : List Setting} {fuel : Nat} {cs : List Call} {answers : List (Answer α)}
    {walk : Traversal (QuerySource Table) α}
    (hcalls : ((Pager.make source codec m).applyAll settings).iterate.1.calls fuel cs =
      some (answers, walk))
    (htoken : walk.position = .ok (some token)) (reader : PositionCodec)
    (m' : Record → Except PagingError β) (settings' : List Setting) :
    let p : Pager (QuerySource Table) β := (Pager.make source' reader m').applyAll settings'
    (∃ e, p.setPosition token = (.error e, p)) ∧
    (∀ hash, hash ≠ q'.hash → ∀ any, ∃ e, p.setPositionWithHashKey any hash = (.error e, p)) ∧
    (p.started = false → Utf8.size token ≤ reader.maxTokenLength →
      p.setPosition token =
        (.error (.corruptPosition (.otherPartition schema.hashKey q.hash q'.hash)), p) ∧
      ∃ key, reader.decode token = .ok key ∧ p.setPositionWithHashKey token q'.hash =
        (.ok (), p.startingAfter ⟨key.fields.insert schema.hashKey q'.hash⟩)) := by
  intro p
  have hfiled := Table.filed_editAll (Table.filed_make name schema pageSize batchMax) edits
  have hover : (((Pager.make source codec m).applyAll settings).source).Over _ q :=
    Pager.applyAll_keeps QuerySource.over_setStart settings (QuerySource.over_make hsource)
  have hover' : p.source.Over t' q' :=
    Pager.applyAll_keeps QuerySource.over_setStart settings' (QuerySource.over_make hsource')
  have hcodec : p.codec = reader := Pager.applyAll_codec settings' _
  obtain ⟨key, hkey⟩ := elsewhere_of_calls hfiled hover hcalls htoken
  rw [(Table.editAll_sameShape _ edits).schema.trans hschema.symm] at hkey
  subst hschema
  refine ⟨hkey.setPosition_refused hover' hne,
    fun hash hother any => setPositionWithHashKey_refused_other hover' hother any,
    fun hstarted hsize => ⟨?_, key, PositionCodec.decode_of_encode hkey.encode hsize, ?_⟩⟩
  · exact hkey.setPosition hover' hne hstarted (hcodec ▸ hsize)
  · exact hkey.setPositionWithHashKey hover' hstarted (hcodec ▸ hsize)

/-- A pager over one tenant refuses the position of another, also when it has a limit. -/
theorem other_partition_refused_tenants :
    let row (tenant id : String) : Record := ⟨.ofList [("id", .text id), ("tenant", .text tenant)]⟩
    let t := (Table.make "items" ⟨"tenant", some "id"⟩ 2 2).editAll
      [.insert (row "acme" "0"), .insert (row "beta" "0"), .insert (row "beta" "1")]
    let q (tenant : String) : QueryRequest := ⟨"items", .text tenant, none, [], none, true⟩
    let pager (tenant : String) : Pager (QuerySource Table) Record :=
      Pager.make ⟨t, q tenant, .start t.schema⟩ .default .ok
    let p := (pager "beta").applyAll [.limit 1]
    (((pager "acme").iterate.1.calls 1 [.ask .next]).map (·.2.position)) =
        some (.ok (some "aWQ9UzAmdGVuYW50PVNhY21l")) ∧
      p.setPosition "aWQ9UzAmdGVuYW50PVNhY21l" = (.error (.corruptPosition
        (.otherPartition "tenant" (.text "acme") (.text "beta"))), p) ∧
      ∃ e, p.setPositionWithHashKey "aWQ9UzAmdGVuYW50PVNhY21l" (.text "acme") = (.error e, p) := by
  intro row t q pager p
  have htokens : ((pager "acme").iterate.1.calls 1 [.ask .next]).map (·.2.position) =
      some (.ok (some "aWQ9UzAmdGVuYW50PVNhY21l")) := by decide +kernel
  obtain ⟨⟨answers, walk⟩, hwalk, htoken⟩ := Option.map_eq_some_iff.1 htokens
  have hcalls :
      ((pager "acme").applyAll []).iterate.1.calls 1 [.ask .next] = some (answers, walk) :=
    hwalk
  have hsource (tenant : String) : QuerySource.make t (q tenant) = .ok (pager tenant).source := rfl
  obtain ⟨-, hrefused, hfresh⟩ := other_partition_refused (hsource "acme") (hsource "beta") rfl
    (by decide) hcalls htoken .default Except.ok [.limit 1]
  exact ⟨htokens, (hfresh rfl (by decide +kernel)).1, hrefused _ (by decide) _⟩

/-- With its own hash value the pager accepts the position of another tenant and skips a row. -/
theorem other_partition_accepted :
    let row (tenant id : String) : Record := ⟨.ofList [("id", .text id), ("tenant", .text tenant)]⟩
    let t := (Table.make "items" ⟨"tenant", some "id"⟩ 2 2).editAll
      [.insert (row "acme" "0"), .insert (row "beta" "0"), .insert (row "beta" "1")]
    let q (tenant : String) : QueryRequest := ⟨"items", .text tenant, none, [], none, true⟩
    let pager (tenant : String) : Pager (QuerySource Table) Record :=
      Pager.make ⟨t, q tenant, .start t.schema⟩ .default .ok
    let accepted := (pager "beta").setPositionWithHashKey "aWQ9UzAmdGVuYW50PVNhY21l" (.text "beta")
    (((pager "acme").iterate.1.calls 1 [.ask .next]).map (·.2.position)) =
        some (.ok (some "aWQ9UzAmdGVuYW50PVNhY21l")) ∧
      accepted.1 = .ok () ∧
      (accepted.2.iterate.1.collect 2 2).map (·.1) = some [.ok (row "beta" "1")] ∧
      ((pager "beta").iterate.1.collect 2 2).map (·.1) =
        some [.ok (row "beta" "0"), .ok (row "beta" "1")] := by
  decide +kernel

end CursorPaging
