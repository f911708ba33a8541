import CursorPaging.Proofs.Position
import CursorPaging.Proofs.Table.Fresh

/-!
# Resumed walks

A walk over a fixed table can be cut into legs, each a fresh walk that goes on after the token of
the one before. The legs together are the walk over the list of matching rows, cut at the same
places.

* `Leg`, `Outcome`; `Leg.run`, `runLegs`: legs over a table;
* `Leg.read`, `readLegs`: legs over a list at hand;
* `readLegs_split`: what legs over a list hand out is a first part of it;
* **`runLegs_eq`**: legs over a table show what legs over the list show;
* **`resumed_legs_exact`**: so for every table that edits lead to and every request.
-/

namespace CursorPaging

variable {α : Type}

/-- One part of a walk: how many rows its pages read, how many results it may hand out, and its
calls. -/
structure Leg where
  pageSize : Option Nat
  limit : Option Nat
  asks : List Ask

/-- What a leg shows: the answers, then the token of its position and whether it is exhausted. -/
structure Outcome (α : Type) where
  answers : List (Answer α)
  token : Option String
  exhausted : Bool

namespace Outcome

/-- An outcome whose results are made into others. -/
def bind {β : Type} (m : α → Except PagingError β) (o : Outcome α) : Outcome β :=
  ⟨o.answers.map (·.bind m), o.token, o.exhausted⟩

theorem bind_token {β : Type} (m : α → Except PagingError β) (o : Outcome α) :
    (o.bind m).token = o.token := rfl

/-- The results that a leg hands out. -/
def handed (o : Outcome α) : List α := o.answers.flatMap Answer.results

end Outcome

/-! ## Legs over a table -/

/-- The outcome of a leg that goes on after a token. -/
def Leg.run (leg : Leg) (t : Table) (r : Request) (codec : PositionCodec)
    (m : Record → Except PagingError α) (fuel : Nat) (token : Option String) :
    Option (Except PagingError (Outcome α)) :=
  match openWalk t (r.withPageSize leg.pageSize) codec m leg.limit token with
  | .error e => some (.error e)
  | .ok walk =>
    (walk.calls fuel (leg.asks.map .ask)).map fun r =>
      r.2.position.map fun token => ⟨r.1, token, r.2.phase = .exhausted⟩

/-- The outcomes of legs, each of which goes on after the token of the one before. They end with one
that has no token. -/
def runLegs (t : Table) (r : Request) (codec : PositionCodec) (m : Record → Except PagingError α)
    (fuel : Nat) : Option String → List Leg → Option (Except PagingError (List (Outcome α)))
  | _, [] => some (.ok [])
  | token, leg :: rest =>
    match leg.run t r codec m fuel token with
    | none => none
    | some (.error e) => some (.error e)
    | some (.ok outcome) =>
      match outcome.token with
      | none => some (.ok [outcome])
      | some token =>
        (runLegs t r codec m fuel (some token) rest).map (·.map (outcome :: ·))

/-! ## Legs over a list -/

/-- The token of the position in a list. -/
def ListWalk.token (schema : KeySchema) (w : ListWalk) : Option String :=
  match w.resumeKey schema with
  | .ok (some key) => some (PositionCodec.tokenOf key)
  | _ => none

/-- The outcome of a leg over some records, and the records that are left after it. -/
def Leg.read (leg : Leg) (schema : KeySchema) (records : List Record) :
    Outcome Record × List Record :=
  let w := (ListWalk.start records (.upTo leg.limit)).asks leg.asks
  (⟨w.1, w.2.token schema, w.2.told⟩, w.2.left)

/-- The outcomes of legs, each of which goes on with what the one before has left. -/
def readLegs (schema : KeySchema) : List Record → List Leg → List (Outcome Record)
  | _, [] => []
  | records, leg :: rest =>
    let (outcome, left) := leg.read schema records
    match outcome.token with
    | none => [outcome]
    | some _ => outcome :: readLegs schema left rest

theorem ListWalk.token_eq_some {schema : KeySchema} {w : ListWalk} {token : String}
    (h : w.token schema = some token) : w.told = false ∧ ∃ row key, w.last = some row ∧
      row.project schema.fields = .ok key ∧ token = PositionCodec.tokenOf key := by
  unfold ListWalk.token ListWalk.resumeKey at h
  cases htold : w.told with
  | true => simp [htold] at h
  | false =>
    cases hlast : w.last with
    | none => simp [htold, hlast] at h
    | some row =>
      cases hkey : row.project schema.fields with
      | error field => simp [htold, hlast, hkey] at h
      | ok key =>
        simp only [htold, hlast, hkey, Option.some.injEq] at h
        exact ⟨rfl, row, key, rfl, hkey, h.symm⟩

theorem split_read (leg : Leg) (schema : KeySchema) (records : List Record) :
    ListWalk.Split records (leg.read schema records).1.handed
      ((ListWalk.start records (.upTo leg.limit)).asks leg.asks).2 :=
  ListWalk.asks_split _ (ListWalk.split_start records _)

/-- What legs over a list hand out is a first part of it, and all of it once a leg is exhausted. -/
theorem readLegs_split (schema : KeySchema) : ∀ (legs : List Leg) (records : List Record),
    ∃ left, (readLegs schema records legs).flatMap Outcome.handed ++ left = records ∧
      ∀ o, (readLegs schema records legs).getLast? = some o → o.exhausted = true → left = []
  | [], records => ⟨records, rfl, fun o ho => by simp [readLegs] at ho⟩
  | leg :: rest, records => by
    have hsplit := split_read leg schema records
    rw [readLegs]
    cases htoken : (leg.read schema records).1.token with
    | none =>
      simp only [htoken]
      refine ⟨_, by simpa using hsplit.records, fun o ho hexhausted => ?_⟩
      cases ho
      exact (hsplit.told hexhausted).1
    | some token =>
      obtain ⟨left, hleft, hend⟩ := readLegs_split schema rest (leg.read schema records).2
      simp only [htoken]
      refine ⟨left, ?_, fun o ho hexhausted => ?_⟩
      · rw [List.flatMap_cons, List.append_assoc, hleft]
        exact hsplit.records
      · rw [List.getLast?_cons] at ho
        cases hlast : (readLegs schema (leg.read schema records).2 rest).getLast? with
        | none =>
          -- the last leg has a token, so it is not exhausted
          rw [hlast] at ho
          cases ho
          have hopen := (ListWalk.token_eq_some htoken).1
          exact absurd (hexhausted.symm.trans hopen) (by decide)
        | some o' =>
          rw [hlast] at ho
          cases ho
          exact hend o' hlast hexhausted

/-! ## Legs over a table are legs over its rows -/

variable {t : Table} {r : Request} {codec : PositionCodec} {m : Record → Except PagingError α}
  {fuel : Nat} {token : Option String} {start : Option Location}

theorem position_follows {n : Nat} {u : Traversal (WalkSource Table) α} {w : ListWalk}
    {schema : KeySchema} (h : u.Follows schema codec m n w)
    (hrows : ∀ row, w.last = some row → ∃ loc, schema.Locates row.fields loc) :
    u.position = .ok (w.token schema) := by
  rw [Traversal.position, Traversal.encodePosition, Traversal.resumeKey_follows h, ListWalk.token,
    ListWalk.resumeKey]
  cases w.told with
  | true => rfl
  | false =>
    cases hlast : w.last with
    | none => rfl
    | some row =>
      obtain ⟨loc, hloc⟩ := hrows row hlast
      obtain ⟨key, hkey, -, hne, hisKey⟩ := KeySchema.exists_project hloc
      simp only [hkey, PositionCodec.encode_eq_ok u.codec hne hisKey]
      rfl

/-- **A leg over a table** shows what it shows over the rows that are left. -/
theorem run_eq (h : t.WellFormed) (hfits : r.Fits t) (hfuel : t.size < fuel) {leg : Leg}
    (hlimit : leg.limit ≠ some 0) (htoken : ResumesAt codec r t.schema token start) :
    leg.run t r codec m fuel token =
      some (.ok ((leg.read t.schema (r.select (r.readsAfter t start))).1.bind m)) := by
  have hfits' := Request.fits_withPageSize hfits leg.pageSize
  have hschema : Store.keySchema t (r.withPageSize leg.pageSize).table = .ok t.schema :=
    hfits'.keySchema
  obtain ⟨s, key, hopen, hstore, hrequest, hcursor, hstart⟩ :=
    exists_openWalk m hschema hlimit (htoken.withPageSize leg.pageSize)
  have hat : s.At (r.withPageSize leg.pageSize) t start :=
    ⟨hstore, hrequest, congrArg StartCursor.schema hcursor, hcursor ▸ hstart⟩
  obtain ⟨n, hn, hyields⟩ := WalkSource.yields_walk h hfits' hat (by rw [hcursor]; rfl)
  rw [Request.select_withPageSize] at hyields
  have hsize := Request.length_readsAfter_le (r.withPageSize leg.pageSize) t start
  have hfollows := Traversal.start_follows codec m hyields (.upTo leg.limit)
  have hpages : n ≤ fuel := by omega
  obtain ⟨u, k, hcalls, hu⟩ := Traversal.asks_follows leg.asks hfollows hpages
  have hsplit := split_read leg t.schema (r.select (r.readsAfter t start))
  have hposition := position_follows hu fun row hrow => by
    rw [hsplit.last] at hrow
    have hmem : row ∈ r.select (r.readsAfter t start) := by
      rw [← hsplit.records]
      exact List.mem_append_left _ (List.mem_of_getLast? hrow)
    obtain ⟨loc, hloc⟩ := Request.mem_select hmem
    exact ⟨loc, Request.locates_of_mem_reads h ((Request.readsAfter_sublist r t start).subset hloc)⟩
  have hexhausted : decide (u.phase = .exhausted) =
      ((ListWalk.start (r.select (r.readsAfter t start)) (.upTo leg.limit)).asks
        leg.asks).2.told := by
    rw [Bool.eq_iff_iff, decide_eq_true_eq]
    exact hu.exhausted
  rw [Leg.run, hopen]
  simp only [hcalls, Option.map_some, hposition, hexhausted]
  rfl

/-- **Legs over a table** show what they show over the rows that are left. -/
theorem runLegs_eq (h : t.WellFormed) (hfits : r.Fits t) (hfuel : t.size < fuel) :
    ∀ {legs : List Leg} {token : Option String} {start : Option Location},
      (∀ leg ∈ legs, leg.limit ≠ some 0) → ResumesAt codec r t.schema token start →
        (∀ o ∈ readLegs t.schema (r.select (r.readsAfter t start)) legs, ∀ token ∈ o.token,
          Utf8.size token ≤ codec.maxTokenLength) →
        runLegs t r codec m fuel token legs =
          some (.ok ((readLegs t.schema (r.select (r.readsAfter t start)) legs).map (·.bind m)))
  | [], token, start, _, _, _ => rfl
  | leg :: rest, token, start, hlimits, htoken, hbound => by
    obtain ⟨hlimit, hrest⟩ := List.forall_mem_cons.1 hlimits
    have hrun := run_eq (m := m) h hfits hfuel hlimit htoken
    have hsplit := split_read leg t.schema (r.select (r.readsAfter t start))
    rw [runLegs, hrun]
    rw [readLegs] at hbound ⊢
    cases hnext : (leg.read t.schema (r.select (r.readsAfter t start))).1.token with
    | none =>
      simp only [Outcome.bind_token, hnext]
      rfl
    | some next =>
      simp only [hnext, List.forall_mem_cons] at hbound
      obtain ⟨-, row, key, hlast, hkey, rfl⟩ := ListWalk.token_eq_some hnext
      rw [hsplit.last, List.getLast?_eq_some_iff] at hlast
      obtain ⟨taken, htaken⟩ := hlast
      have hrecords := hsplit.records
      rw [htaken, List.append_assoc] at hrecords
      -- the rows left in the list are those that lie after the last row handed out
      obtain ⟨loc, hloc, hleft⟩ :=
        Request.select_readsAfter_of_split h (fun _ => htoken.sound) hrecords.symm
      have hlocated := Request.locates_of_mem_reads h hloc
      obtain ⟨key', hkey', hat, hne, hisKey⟩ := KeySchema.exists_project hlocated
      obtain rfl : key' = key := Except.ok.inj (hkey'.symm.trans hkey)
      have hresumes : ResumesAt codec r t.schema (some (PositionCodec.tokenOf key')) (some loc) :=
        .some (PositionCodec.decode_tokenOf hne hisKey (hbound.1 _ rfl)) hat
          (Request.owns_of_covers (Request.mem_reads_iff.1 hloc).2)
      have hrest' := runLegs_eq h hfits hfuel hrest hresumes (by rw [hleft]; exact hbound.2)
      rw [hleft] at hrest'
      simp only [Outcome.bind_token, hnext, hrest']
      rfl

/-- **Resumed walks are exact.** Legs that are each resumed from the token of the one before hand
out a first part of the matching rows together, and all of them if the last one is exhausted, as
long as the codec accepts the tokens. -/
theorem resumed_legs_exact (h : t.Reached) (hfits : r.Fits t) (codec : PositionCodec)
    (m : Record → Except PagingError α) (hfuel : t.size < fuel) (legs : List Leg)
    (hlimits : ∀ leg ∈ legs, leg.limit ≠ some 0)
    (htokens : ∀ o ∈ readLegs t.schema (r.matching t) legs, ∀ token ∈ o.token,
      Utf8.size token ≤ codec.maxTokenLength) :
    (∃ rows : List (Location × Record), r.matching t = rows.map (·.2) ∧
      (rows.Pairwise fun a b => r.Ahead a.1 b.1) ∧
      ∀ loc row, (loc, row) ∈ rows ↔
        t.rowAt loc = some row ∧ r.covers loc = true ∧ passesAll r.filters row = true) ∧
    runLegs t r codec m fuel none legs =
      some (.ok ((readLegs t.schema (r.matching t) legs).map (·.bind m))) ∧
    ∃ left, (readLegs t.schema (r.matching t) legs).flatMap Outcome.handed ++ left = r.matching t ∧
      ∀ o, (readLegs t.schema (r.matching t) legs).getLast? = some o → o.exhausted = true →
        left = [] :=
  ⟨Request.matching_spec r h.wellFormed,
    runLegs_eq h.wellFormed hfits hfuel hlimits .none htokens, readLegs_split t.schema legs _⟩

/-- A query that descends in two legs. The row `9` fails the filter, and the row `3.5` was taken
out. -/
theorem resumed_legs_exact_descending :
    let row (range c : String) : Record :=
      ⟨.ofList [("h", .text "a"), ("r", .number range), ("c", .text c)]⟩
    let schema : KeySchema := ⟨"h", some "r"⟩
    let edits : List Table.Edit := [.insert (row "10" "x"), .insert (row "9" "y"),
      .insert (row "3.5" "x"), .insert (row "2" "x"), .delete ⟨(row "3.5" "x").fields⟩]
    let t := (Table.make "t" schema 2 1).editAll edits
    let r := Request.query ⟨"t", .text "a", none, [.equal "c" (.text "x")], none, false⟩
    let legs : List Leg := [⟨some 1, some 1, [.hasNext, .next, .hasResultsPastLimit]⟩,
      ⟨none, none, [.next, .nextItem]⟩]
    (readLegs t.schema (r.matching t) legs).flatMap Outcome.handed = [row "10" "x", row "2" "x"] ∧
      (∃ left, [row "10" "x", row "2" "x"] ++ left = r.matching t) ∧
      runLegs t r .default .ok 4 none legs =
        some (.ok ((readLegs t.schema (r.matching t) legs).map (·.bind Except.ok))) := by
  intro row schema edits t r legs
  have hreached : t.Reached := ⟨"t", schema, 2, 1, edits, by decide +kernel, rfl⟩
  have hhanded : (readLegs t.schema (r.matching t) legs).flatMap Outcome.handed =
      [row "10" "x", row "2" "x"] := by decide +kernel
  have hfits : r.Fits t := ⟨rfl, fun hrange => nomatch hrange⟩
  have hsize : t.size < 4 := by decide +kernel
  obtain ⟨-, hrun, left, hleft, -⟩ := resumed_legs_exact hreached hfits .default Except.ok hsize
    legs (by decide +kernel) (by decide +kernel)
  rw [hhanded] at hleft
  exact ⟨hhanded, ⟨left, hleft⟩, hrun⟩

end CursorPaging
