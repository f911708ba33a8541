import CursorPaging.Proofs.Live.Session
import CursorPaging.Proofs.Pager
import CursorPaging.Proofs.Table.Filed
import CursorPaging.Proofs.Table.PageCount

/-!
# Tokens of a walk and its own codec

A writer does not look at the bound on the length of tokens, a reader does. Nothing else stands
between the two: whatever values a walk comes by, a token that it hands out is taken by a fresh
pager for the same request exactly if its length is accepted.

* `Request.Owned`: a row under a location of the request; `Table.Filed.owned_of_page`: so is every
  row of a page;
* `WalkSource.Serves`, **`serves_supplies`**: a source over a table that others edit brings only
  those;
* `Session.Keeps`, **`Session.run_keeps`**: so does every walk of a session;
* `Request.Takes`, `Owned.takes`: the key of such a row, which a source goes on after;
* `Pager.TakenByLength`: a call that the length of its token decides;
* **`own_token_taken_by_length`**, `own_token_refused`: all tokens of a session, and one
  that is too long.
-/

namespace CursorPaging

/-! ## Rows of a request -/

namespace Request

variable {r : Request} {schema : KeySchema} {row : Record}

/-- A row whose key fields name a location of the request. -/
def Owned (r : Request) (schema : KeySchema) (row : Record) : Prop :=
  ∃ loc, schema.Names row.fields loc ∧ r.Owns loc

theorem owned_withPageSize (pageSize : Option Nat) :
    (r.withPageSize pageSize).Owned schema row ↔ r.Owned schema row := by
  simp only [Owned, owns_withPageSize]

end Request

theorem Table.Filed.owned_of_page {t u : Table} {r : Request} {start : Option ResumeKey}
    {output : PageOutput} {row : Record} (h : t.Filed) (hpage : r.page t start = (.ok output, u))
    (hrow : row ∈ output.items) : r.Owned t.schema row := by
  obtain ⟨hpage, -⟩ := Prod.mk.inj hpage
  cases r with
  | query q =>
    obtain ⟨e, he, rfl⟩ := mem_partition_of_query hpage hrow
    exact ⟨_, h.names he, rfl⟩
  | scan s =>
    rcases scan_cases t s start with ⟨e, -, herror⟩ | ⟨key, e, -, -, herror⟩ | ⟨loc, hscan⟩
    · cases herror.symm.trans hpage
    · cases herror.symm.trans hpage
    · have hread := mem_items_of_readPage (hscan.symm.trans hpage) hrow
      obtain ⟨p, hp, e, he, rfl⟩ := mem_scanRows hread
      exact ⟨_, h p hp e he, trivial⟩

/-! ## Sources over a table that others edit -/

/-- A table that is edited while it is read, and keeps its rows under their own keys. -/
structure LiveTable.Files (schema : KeySchema) (s : LiveTable) : Prop where
  filed : s.table.Filed
  schema : s.table.schema = schema

namespace LiveTable

variable {schema : KeySchema} {s : LiveTable}

theorem Files.settle (h : s.Files schema) : s.settle.Files schema := by
  rw [LiveTable.settle]
  split
  · exact h
  · exact ⟨Table.filed_editAll h.filed _, (Table.editAll_sameShape _ _).schema.trans h.schema⟩

theorem Files.note (h : s.Files schema) (answer : Except StoreError PageOutput) :
    (s.note answer).2.Files schema := by
  cases answer with
  | ok => exact ⟨h.filed, h.schema⟩
  | error => exact h

theorem exists_page (r : Request) (s : LiveTable) (start : Option ResumeKey) :
    ∃ answer t, r.page s.settle.table start = (answer, t) ∧
      r.page s start = (answer, (s.settle.note answer).2) := by
  rcases hread : r.page s.settle.table start with ⟨answer, t⟩
  refine ⟨answer, t, rfl, ?_⟩
  rw [page_eq_note, hread]
  cases answer <;> rfl

end LiveTable

theorem StartCursor.schema_after (cursor : StartCursor) (answer : Except StoreError PageOutput) :
    (cursor.after answer).schema = cursor.schema := by
  cases answer <;> rfl

theorem WalkSource.setStart_cases {β : Type} [WalkStore β] (s : WalkSource β) (key : ResumeKey) :
    PageSource.setStart s key = (.ok (), s.put s.store { s.cursor with startKey := some key }) ∨
      ∃ e, PageSource.setStart s key = (.error e, s) := by
  cases s with
  | query s =>
    rw [setStart_query]
    rcases s.setStart_cases key with hset | ⟨e, hset⟩
    · exact .inl (congrArg (Prod.map id query) hset)
    · exact .inr ⟨e, congrArg (Prod.map id query) hset⟩
  | scan s =>
    rw [setStart_scan]
    rcases s.setStart_cases key with hset | ⟨e, hset⟩
    · exact .inl (congrArg (Prod.map id scan) hset)
    · exact .inr ⟨e, congrArg (Prod.map id scan) hset⟩

theorem WalkSource.fetchPage_eq {β : Type} [WalkStore β] (s : WalkSource β)
    {answer : Except StoreError PageOutput} {store : β}
    (h : s.request.page s.store s.cursor.startKey = (answer, store)) :
    PageSource.fetchPage s =
      (fetched StartCursor.page answer, s.put store (s.cursor.after answer)) := by
  cases s with
  | query s => exact congrArg (Prod.map id query) (QuerySource.fetchPage_eq h)
  | scan s => exact congrArg (Prod.map id scan) (ScanSource.fetchPage_eq h)

namespace WalkSource

variable {r : Request} {schema : KeySchema} {s : WalkSource LiveTable}

/-- A source over such a table, for the request with any page size. -/
structure Serves (r : Request) (schema : KeySchema) (s : WalkSource LiveTable) : Prop where
  store : s.store.Files schema
  request : ∃ pageSize, s.request = r.withPageSize pageSize
  schema : s.cursor.schema = schema

theorem Serves.put (h : s.Serves r schema) {store : LiveTable} (hstore : store.Files schema)
    {cursor : StartCursor} (hcursor : cursor.schema = s.cursor.schema) :
    (s.put store cursor).Serves r schema where
  store := by rwa [store_put]
  request := by rw [request_put]; exact h.request
  schema := by rw [cursor_put, hcursor, h.schema]

theorem Serves.setStart (h : s.Serves r schema) (key : ResumeKey) :
    (PageSource.setStart s key).2.Serves r schema := by
  rcases s.setStart_cases key with hset | ⟨e, hset⟩
  · rw [hset]
    exact h.put h.store rfl
  · rw [hset]
    exact h

/-- **What a source brings** while others edit its table are rows of its request. -/
theorem serves_supplies (r : Request) (schema : KeySchema) :
    Traversal.Supplies (Serves r schema) (r.Owned schema) where
  keeps := by
    intro s h
    obtain ⟨answer, t, -, hpage⟩ := LiveTable.exists_page s.request s.store s.cursor.startKey
    rw [s.fetchPage_eq hpage]
    exact h.put (h.store.settle.note answer) (StartCursor.schema_after _ _)
  records := by
    intro s u page h hfetch record hrecord
    obtain ⟨pageSize, hrequest⟩ := h.request
    obtain ⟨answer, t, hread, hpage⟩ := LiveTable.exists_page s.request s.store s.cursor.startKey
    rw [s.fetchPage_eq hpage] at hfetch
    cases answer with
    | error e => cases hfetch
    | ok output =>
      cases hfetch
      have howned := h.store.settle.filed.owned_of_page hread hrecord
      rwa [h.store.settle.schema, hrequest, Request.owned_withPageSize] at howned

end WalkSource

/-! ## Sessions -/

theorem openWalk_eq {β α : Type} [WalkStore β] {store : β} {r : Request} {codec : PositionCodec}
    {m : Record → Except PagingError α} {limit : Option Nat} {token : Option String}
    {walk : Traversal (WalkSource β) α} (h : openWalk store r codec m limit token = .ok walk) :
    ∃ source settings, WalkSource.make store r = .ok source ∧
      walk = ((Pager.make source codec m).applyAll settings).iterate.1 := by
  unfold openWalk at h
  rcases hmake : WalkSource.make store r with e | source
  · simp only [hmake] at h
    cases h
  · have hresumed : ∀ pager, (Pager.make source codec m).resume token = .ok pager →
        ∃ positions, pager = (Pager.make source codec m).applyAll positions := by
      intro pager hpager
      cases token with
      | none =>
        cases hpager
        exact ⟨[], rfl⟩
      | some token =>
        rw [Pager.resume] at hpager
        cases hset : ((Pager.make source codec m).setPosition token).1 with
        | error e =>
          rw [hset] at hpager
          cases hpager
        | ok _ =>
          rw [hset] at hpager
          cases hpager
          exact ⟨[.position token], rfl⟩
    rcases hresume : (Pager.make source codec m).resume token with e | pager
    · simp only [hmake, hresume] at h
      cases h
    · obtain ⟨positions, rfl⟩ := hresumed pager hresume
      simp only [hmake, hresume] at h
      cases limit with
      | none =>
        cases h
        exact ⟨source, positions, rfl, rfl⟩
      | some n =>
        rw [Pager.cap] at h
        cases hset : (((Pager.make source codec m).applyAll positions).setLimit n).1 with
        | error e =>
          rw [hset] at h
          cases h
        | ok _ =>
          rw [hset] at h
          cases h
          refine ⟨source, positions ++ [.limit n], rfl, ?_⟩
          have hlast : (Pager.make source codec m).applyAll (positions ++ [.limit n]) =
              (((Pager.make source codec m).applyAll positions).setLimit n).2 := List.foldl_append
          rw [hlast]

namespace Session

variable {α : Type} {r : Request} {schema : KeySchema} {codec : PositionCodec}
  {m : Record → Except PagingError α} {s s' : Session α}

/-- The walk has rows of its request only, and its codec. -/
structure Keeps (r : Request) (schema : KeySchema) (codec : PositionCodec) (s : Session α) :
    Prop where
  supplied : s.walk.Supplied (WalkSource.Serves r schema) (r.Owned schema)
  codec : s.walk.codec = codec

theorem keeps_iterate {source : WalkSource LiveTable} (h : source.Serves r schema)
    (settings : List Setting) (handed : List α) :
    Keeps r schema codec ⟨((Pager.make source codec m).applyAll settings).iterate.1, handed⟩ where
  supplied := by
    have hsource : ((Pager.make source codec m).applyAll settings).source.Serves r schema :=
      Pager.applyAll_keeps (fun key hs => hs.setStart key) settings h
    exact Traversal.supplied_start hsource _ _ _
  codec := Pager.applyAll_codec settings _

theorem Keeps.onTable (h : s.Keeps r schema codec) {f : LiveTable → LiveTable}
    (hf : (f s.walk.source.store).Files schema) :
    (⟨s.walk.onTable f, s.handed⟩ : Session α).Keeps r schema codec where
  supplied := ⟨h.supplied.source.put hf rfl, h.supplied.buffer, h.supplied.lastExamined⟩
  codec := h.codec

theorem Keeps.ask (h : s.Keeps r schema codec) {fuel : Nat} {call : Ask} {answer : Answer α}
    {walk : Traversal (WalkSource LiveTable) α} (hask : s.walk.ask fuel call = some (answer, walk))
    (handed : List α) : (⟨walk, handed⟩ : Session α).Keeps r schema codec := by
  have hcalls : s.walk.calls fuel [.ask call] = some ([answer], walk) := by
    rw [Traversal.calls, Traversal.call, hask]
    rfl
  exact ⟨Traversal.calls_supplied (WalkSource.serves_supplies r schema) hcalls h.supplied,
    (Traversal.calls_codec hcalls).trans h.codec⟩

theorem serves_of_make {store : LiveTable} {source : WalkSource LiveTable} {pageSize : Option Nat}
    (hstore : store.Files schema)
    (h : WalkSource.make store (r.withPageSize pageSize) = .ok source) :
    source.Serves r schema := by
  obtain ⟨told, htold, hsame, hrequest, hcursor⟩ := WalkSource.make_cases h
  have hkey : store.table.keySchema (r.withPageSize pageSize).table = .ok told := htold
  rw [Table.keySchema] at hkey
  cases hname : store.table.checkName (r.withPageSize pageSize).table with
  | error e =>
    rw [hname] at hkey
    cases hkey
  | ok _ =>
    rw [hname] at hkey
    cases hkey
    exact ⟨by rwa [hsame], ⟨pageSize, hrequest⟩, by rw [hcursor]; exact hstore.schema⟩

theorem step_keeps (h : s.Keeps r schema codec) {event : Event}
    (hstep : s.step r codec m event = some s') : s'.Keeps r schema codec := by
  have hfiles := h.supplied.source.store
  cases event with
  | edit change =>
    cases hstep
    exact h.onTable ⟨Table.filed_edit hfiles.filed change,
      (Table.editAll_sameShape _ [change]).schema.trans hfiles.schema⟩
  | ask fuel call arriving =>
    obtain ⟨⟨answer, walk⟩, hask, rfl⟩ := Option.map_eq_some_iff.1 hstep
    exact (h.onTable (f := fun t => { t with arriving }) ⟨hfiles.filed, hfiles.schema⟩).ask hask _
  | restart pageSize limit =>
    rw [step] at hstep
    rcases hposition : s.walk.position with e | _ | token
    · simp only [hposition] at hstep
      cases hstep
    · simp only [hposition] at hstep
      cases hstep
    · simp only [hposition] at hstep
      rcases hopen : openWalk s.walk.source.store (r.withPageSize pageSize) codec m limit
        (some token) with e | walk
      · simp only [hopen] at hstep
        cases hstep
      · simp only [hopen] at hstep
        cases hstep
        obtain ⟨source, settings, hmake, rfl⟩ := openWalk_eq hopen
        exact keeps_iterate (serves_of_make hfiles hmake) settings _

/-- **Every run keeps** the walk to rows of its request. -/
theorem run_keeps : ∀ {events : List Event} {s s' : Session α}, s.Keeps r schema codec →
    s.run r codec m events = some s' → s'.Keeps r schema codec
  | [], s, s', h, hrun => by
    cases hrun
    exact h
  | event :: rest, s, s', h, hrun => by
    obtain ⟨mid, hstep, hrest⟩ := Option.bind_eq_some_iff.1 hrun
    exact run_keeps (step_keeps h hstep) hrest

end Session

/-! ## Keys that a request goes on after -/

section Keys

variable {r : Request} {schema : KeySchema} {key : ResumeKey}

/-- A key with every key field, for a query with its own hash value. -/
structure Request.Takes (r : Request) (schema : KeySchema) (key : ResumeKey) : Prop where
  whole : ∀ field ∈ schema.fields, key.fields.contains field = true
  hash : ∀ q, r = .query q → key.fields.get? schema.hashKey = some q.hash

theorem Request.Owned.takes {row : Record} (h : r.Owned schema row)
    (hproject : row.project schema.fields = .ok key) : r.Takes schema key := by
  obtain ⟨loc, hnames, howns⟩ := h
  rcases hfields : row.fields.project schema.fields with field | fields
  · rw [Record.project, hfields] at hproject
    cases hproject
  · rw [Record.project, hfields] at hproject
    cases hproject
    have hget := FieldMap.get?_project hfields
    refine ⟨fun field hfield => ?_, ?_⟩
    · obtain ⟨value, hvalue, -⟩ := hnames.get? hfield
      exact FieldMap.contains_iff.2 ⟨value, by rw [hget, if_pos hfield, hvalue]⟩
    · rintro q rfl
      obtain ⟨hash, range⟩ := loc
      obtain rfl : hash = q.hash := howns
      rw [hget, if_pos (KeySchema.mem_fields.2 (.inl rfl)), hnames.hash]

variable {α : Type} {walk : Traversal (WalkSource LiveTable) α} {token : String}

theorem exists_takes_of_position (h : walk.Supplied (WalkSource.Serves r schema) (r.Owned schema))
    (htoken : walk.position = .ok (some token)) :
    ∃ key, r.Takes schema key ∧ walk.codec.encode key = .ok token := by
  have hschema : PageSource.keySchema walk.source = .ok schema := by
    rw [WalkSource.keySchema_eq, h.source.schema]
  obtain ⟨key, hkey, hencode⟩ := Traversal.encodePosition_eq_some htoken
  obtain ⟨row, hlast, hproject⟩ :=
    Traversal.currentKey_eq_some (Traversal.resumeKey_whole hschema hkey)
  exact ⟨key, (h.lastExamined row hlast).takes hproject, hencode⟩

theorem exists_takes_of_short (h : walk.Supplied (WalkSource.Serves r schema) (r.Owned schema))
    (htoken : walk.positionWithoutHashKey = .ok (some token)) :
    ∃ q key, r = .query q ∧ r.Takes schema key ∧
      walk.codec.encode ⟨key.fields.erase schema.hashKey⟩ = .ok token := by
  have hschema : PageSource.keySchema walk.source = .ok schema := by
    rw [WalkSource.keySchema_eq, h.source.schema]
  obtain ⟨short, hshort, hencode⟩ := Traversal.encodePosition_eq_some htoken
  obtain ⟨key, hcurrent, rfl⟩ := Traversal.resumeKey_short hschema hshort
  obtain ⟨row, hlast, hproject⟩ := Traversal.currentKey_eq_some hcurrent
  obtain ⟨pageSize, hrequest⟩ := h.source.request
  cases r with
  | query q => exact ⟨q, key, rfl, (h.lastExamined row hlast).takes hproject, hencode⟩
  | scan s =>
    have hkind : PageSource.kind walk.source = .scan := by
      cases hsource : walk.source with
      | query source =>
        rw [hsource] at hrequest
        cases hrequest
      | scan source => rfl
    rw [Traversal.resumeKey, hschema] at hshort
    simp only [if_true, Traversal.checkRemoveHashKey, hkind] at hshort
    cases hshort

end Keys

/-! ## Fresh pagers -/

/-- A call that takes a token exactly if its length is accepted, and else changes nothing. -/
structure Pager.TakenByLength {σ α : Type} (p : Pager σ α) (token : String)
    (answer : Except PagingError Unit × Pager σ α) : Prop where
  taken : Utf8.size token ≤ p.codec.maxTokenLength → answer.1 = .ok ()
  refused : p.codec.maxTokenLength < Utf8.size token →
    answer = (.error (.corruptPosition (.tooLong (Utf8.size token) p.codec.maxTokenLength)), p)

theorem PositionCodec.decode_of_size_lt {reader : PositionCodec} {token : String} (hne : token ≠ "")
    (hsize : reader.maxTokenLength < Utf8.size token) :
    reader.decode token =
      .error (.corruptPosition (.tooLong (Utf8.size token) reader.maxTokenLength)) := by
  rw [decode, parse, if_neg hne, if_pos hsize]

theorem PositionCodec.ne_empty_of_encode {writer : PositionCodec} {key : ResumeKey} {token : String}
    (h : writer.encode key = .ok token) : token ≠ "" := by
  obtain rfl := tokenOf_of_encode h
  exact tokenOf_ne_empty (encode_ok h).1

section Fresh

variable {β α : Type} [WalkStore β] {r : Request} {schema : KeySchema} {key : ResumeKey}
  {codec : PositionCodec} {token : String} {source : WalkSource β}

theorem taken_setPosition (m : Record → Except PagingError α) (h : r.Takes schema key)
    (hencode : codec.encode key = .ok token) (hrequest : source.request = r)
    (hschema : source.cursor.schema = schema) :
    (Pager.make source codec m).TakenByLength token
      ((Pager.make source codec m).setPosition token) := by
  subst hrequest hschema
  have hkeySchema := WalkSource.keySchema_eq (Pager.make source codec m).source
  constructor
  · intro hsize
    have hdecode : codec.decode token = .ok key := PositionCodec.decode_of_encode hencode hsize
    have hstart : PageSource.setStart (Pager.make source codec m).source key = _ :=
      WalkSource.setStart_of_contains h.hash h.whole
    rw [Pager.setPosition_of_decode rfl hkeySchema hdecode, Pager.setStart, hstart]
  · intro hsize
    have hdecode : (Pager.make source codec m).codec.decode token = _ :=
      PositionCodec.decode_of_size_lt (PositionCodec.ne_empty_of_encode hencode) hsize
    rw [Pager.setPosition, if_neg (by simp [Pager.make]), hkeySchema]
    simp only [hdecode]

theorem taken_setPositionWithHashKey (m : Record → Except PagingError α) {q : QueryRequest}
    (h : (Request.query q).Takes schema key)
    (hencode : codec.encode ⟨key.fields.erase schema.hashKey⟩ = .ok token)
    (hrequest : source.request = .query q) (hschema : source.cursor.schema = schema) :
    (Pager.make source codec m).TakenByLength token
      ((Pager.make source codec m).setPositionWithHashKey token q.hash) := by
  cases source with
  | scan s => cases hrequest
  | query s =>
    cases hrequest
    obtain rfl : s.cursor.schema = schema := hschema
    constructor
    · intro hsize
      have hdecode : codec.decode token = .ok ⟨key.fields.erase s.cursor.schema.hashKey⟩ :=
        PositionCodec.decode_of_encode hencode hsize
      have hstart : PageSource.setStart (WalkSource.query s) key = _ :=
        WalkSource.setStart_of_contains h.hash h.whole
      rw [Pager.setPositionWithHashKey_of_decode rfl rfl rfl hdecode,
        FieldMap.insert_erase (h.hash _ rfl), Pager.setStart]
      exact congrArg (·.1) hstart
    · intro hsize
      have hdecode : (Pager.make (WalkSource.query s) codec m).codec.decode token = _ :=
        PositionCodec.decode_of_size_lt (PositionCodec.ne_empty_of_encode hencode) hsize
      rw [Pager.setPositionWithHashKey, hdecode]
      rfl

end Fresh

/-- **Its own tokens are taken by their length.** Whatever happens to the table and the walk, a
fresh pager with the same codec takes the token exactly if its length is accepted. -/
theorem own_token_taken_by_length {α β : Type} {name : String} {schema : KeySchema}
    {pageSize batchMax : Nat} {edits : List Table.Edit} {r : Request}
    {source fresh : WalkSource LiveTable} {codec : PositionCodec}
    {m : Record → Except PagingError α} {settings : List Setting} {events : List Event}
    {s : Session α}
    (hsource : WalkSource.make
      ⟨(Table.make name schema pageSize batchMax).editAll edits, [], []⟩ r = .ok source)
    (hrun : Session.run r codec m events
      ⟨((Pager.make source codec m).applyAll settings).iterate.1, []⟩ = some s)
    (hfresh : WalkSource.make s.walk.source.store r = .ok fresh)
    (m' : Record → Except PagingError β) :
    let p : Pager (WalkSource LiveTable) β := Pager.make fresh codec m'
    (∀ token, s.walk.position = .ok (some token) → p.TakenByLength token (p.setPosition token)) ∧
    ∀ short, s.walk.positionWithoutHashKey = .ok (some short) →
      ∃ q, r = .query q ∧ p.TakenByLength short (p.setPositionWithHashKey short q.hash) := by
  intro p
  have hfiles : LiveTable.Files schema
      ⟨(Table.make name schema pageSize batchMax).editAll edits, [], []⟩ :=
    ⟨Table.filed_editAll (Table.filed_make name schema pageSize batchMax) edits,
      (Table.editAll_sameShape _ edits).schema⟩
  have hsame : r.withPageSize r.pageSize = r := by cases r <;> rfl
  have hserves : source.Serves r schema := Session.serves_of_make hfiles (hsame.symm ▸ hsource)
  have hkeeps : s.Keeps r schema codec :=
    Session.run_keeps (Session.keeps_iterate hserves settings []) hrun
  obtain ⟨hsupplied, hcodec⟩ := hkeeps
  have hfreshServes : fresh.Serves r schema :=
    Session.serves_of_make hsupplied.source.store (hsame.symm ▸ hfresh)
  obtain ⟨-, -, -, hrequest, -⟩ := WalkSource.make_cases hfresh
  constructor
  · intro token htoken
    obtain ⟨key, htakes, hencode⟩ := exists_takes_of_position hsupplied htoken
    exact taken_setPosition m' htakes (hcodec ▸ hencode) hrequest hfreshServes.schema
  · intro short hshort
    obtain ⟨q, key, rfl, htakes, hencode⟩ := exists_takes_of_short hsupplied hshort
    exact ⟨q, rfl, taken_setPositionWithHashKey m' htakes (hcodec ▸ hencode) hrequest
      hfreshServes.schema⟩

/-- The token of a row that was taken out is too long for the codec, the one without the hash key is
not. -/
theorem own_token_taken_by_length_of_short :
    let edits : List Table.Edit := [.insert ⟨.ofList [("h", .text "a"), ("r", .number "77")]⟩]
    let t : LiveTable := ⟨(Table.make "items" ⟨"h", some "r"⟩ 1 1).editAll edits, [], []⟩
    let q : QueryRequest := ⟨"items", .text "a", none, [], none, true⟩
    let source : WalkSource LiveTable := .query ⟨t, q, .start ⟨"h", some "r"⟩⟩
    let events : List Event := [.ask 1 .next [],
      .edit (.delete ⟨.ofList [("h", .text "a"), ("r", .number "77")]⟩)]
    ∃ (s : Session Record) (fresh : WalkSource LiveTable),
      Session.run (.query q) ⟨10⟩ .ok events
        ⟨((Pager.make source ⟨10⟩ .ok).applyAll [.limit 1]).iterate.1, []⟩ = some s ∧
      s.walk.position = .ok (some "aD1TYSZyPU43Nw%3D%3D") ∧
      s.walk.positionWithoutHashKey = .ok (some "cj1ONzc%3D") ∧
      let p : Pager (WalkSource LiveTable) Record := Pager.make fresh ⟨10⟩ .ok
      p.setPosition "aD1TYSZyPU43Nw%3D%3D" = (.error (.corruptPosition (.tooLong 20 10)), p) ∧
        (p.setPositionWithHashKey "cj1ONzc%3D" (.text "a")).1 = .ok () := by
  intro edits t q source events
  let run := Session.run (.query q) ⟨10⟩ .ok events
    ⟨((Pager.make source ⟨10⟩ .ok).applyAll [.limit 1]).iterate.1, []⟩
  have hfound : run.map (fun s => ((s.walk.position, s.walk.positionWithoutHashKey),
      (WalkSource.make s.walk.source.store (.query q)).isOk)) =
      some ((.ok (some "aD1TYSZyPU43Nw%3D%3D"), .ok (some "cj1ONzc%3D")), true) := by decide +kernel
  obtain ⟨s, hrun, hs⟩ := Option.map_eq_some_iff.1 hfound
  obtain ⟨htokens, hmake⟩ := Prod.mk.inj hs
  obtain ⟨htoken, hshort⟩ := Prod.mk.inj htokens
  cases hfresh : WalkSource.make s.walk.source.store (.query q) with
  | error e =>
    rw [hfresh] at hmake
    cases hmake
  | ok fresh =>
    have hsource : WalkSource.make t (.query q) = .ok source := rfl
    obtain ⟨hwhole, hcut⟩ := own_token_taken_by_length hsource hrun hfresh Except.ok
    obtain ⟨q', hq, htaken⟩ := hcut _ hshort
    cases hq
    have hlong : Utf8.size "aD1TYSZyPU43Nw%3D%3D" = 20 := by decide +kernel
    have hfits : Utf8.size "cj1ONzc%3D" ≤ 10 := by decide +kernel
    have hrefused := (hwhole _ htoken).refused (hlong ▸ (by decide : 10 < 20))
    rw [hlong] at hrefused
    exact ⟨s, fresh, hrun, htoken, hshort, hrefused, htaken.taken hfits⟩

/-- A codec refuses the token of its own walk: the writer does not look at the bound. -/
theorem own_token_refused :
    let t := (Table.make "items" ⟨"h", some "r"⟩ 1 1).editAll
      [.insert ⟨.ofList [("h", .text "a"), ("r", .number "77")]⟩]
    let q : QueryRequest := ⟨"items", .text "a", none, [], none, true⟩
    let pager : Pager (QuerySource Table) Record := Pager.make ⟨t, q, .start t.schema⟩ ⟨8⟩ .ok
    (pager.iterate.1.calls 1 [.ask .next]).map (·.2.position) =
        some (.ok (some "aD1TYSZyPU43Nw%3D%3D")) ∧
      (pager.setPosition "aD1TYSZyPU43Nw%3D%3D").1 = .error (.corruptPosition (.tooLong 20 8)) := by
  decide +kernel

end CursorPaging
