import CursorPaging.Proofs.Live.Session

/-!
# Peeking is invisible

A walk with questions between the calls for results, beside the same walk without them. A question
may fetch and fill the buffer earlier, but what a look at either walk tells and leaves is the same
all along, and calls for results go by nothing else.

* `Call.isItem`, `Answer.isItem`: calls for results and their answers;
* `Going`: a walk over a steady source, as calls keep it;
* **`Peeked`**: how the two walks belong together; `Peeked.look`: a look at one of them keeps it;
* `Peeked.item`, `Peeked.peek`: a call for a result on both, a question on one;
* `calls_peeked`: any calls;
* **`peeks_invisible`**; `peeks_not_invisible`: a source that changes its key layout, and a table
  that changes between the calls.
-/

namespace CursorPaging

/-- Whether a call asks for a result. -/
def Call.isItem : Call → Bool
  | .ask .nextItem => true
  | .ask .next => true
  | _ => false

/-- Whether an answer is one to a call for a result. -/
def Answer.isItem {α : Type} : Answer α → Bool
  | .item _ => true
  | .pulled _ => true
  | _ => false

namespace Traversal

variable {σ α : Type} [PageSource σ] {fuel : Nat} {t u v : Traversal σ α} {answer : Answer α}
  {told : Prop}

theorem isItem_of_call {c : Call} (h : t.call fuel c = some (answer, u)) :
    answer.isItem = c.isItem := by
  cases c with
  | ask ask => cases asked_of_eq h <;> rfl
  | resumeKey removeHashKey =>
    cases h
    rfl
  | position removeHashKey =>
    cases h
    rfl

/-! ## One walk -/

/-- A walk over a steady source that has not failed. If it is exhausted, nothing is left, although
the limit is open. -/
structure Going (t : Traversal σ α) : Prop where
  steady : Steady t.source
  alive : t.phase ≠ .failed
  ended : t.phase = .exhausted → t.Spent ∧ t.limit.isReached = false

theorem Going.of_ne (hsteady : Steady t.source) (halive : t.phase ≠ .failed)
    (hopen : t.phase ≠ .exhausted) : Going t :=
  ⟨hsteady, halive, fun h => absurd h hopen⟩

theorem Going.ne_of_reached (h : Going t) (hreached : t.limit.isReached = true) :
    t.phase ≠ .exhausted := by
  intro hphase
  have hopen := (h.ended hphase).2
  rw [hreached] at hopen
  cases hopen

theorem Leaves.going {ask : Ask} (h : Leaves fuel t ask answer u) (ht : Going t) : Going u := by
  cases h with
  | same => exact ht
  | reached => exact .of_ne ht.steady (by simp) (by simp)
  | failed phase alive look =>
    obtain ⟨-, found, hfound, -⟩ := look.steady ht.steady
    cases hfound
  | nothing answer alive limit look =>
    obtain ⟨hsteady, found, hfound, hspent⟩ := look.steady ht.steady
    cases hfound
    obtain ⟨hbuffer, hsource⟩ := hspent rfl
    exact ⟨hsteady, by simp, fun _ => ⟨⟨hbuffer, hsource⟩, look.limit ▸ limit⟩⟩
  | found answer alive limit look => exact .of_ne (look.steady ht.steady).1 (by simp) (by simp)
  | taken answer alive limit look =>
    refine .of_ne (look.steady ht.steady).1 ?_ ?_ <;> simp only [take] <;> split_ifs <;> simp
  | past answer alive limit look =>
    have hphase := look.phase_past rfl
    exact .of_ne (look.steady ht.steady).1 (by simp [hphase, endPhase]) (by simp [hphase, endPhase])

theorem Going.call {c : Call} (ht : Going t) (h : t.call fuel c = some (answer, u)) : Going u := by
  cases c with
  | ask ask => exact (leaves_of_eq h).going ht
  | resumeKey removeHashKey =>
    cases h
    exact ht
  | position removeHashKey =>
    cases h
    exact ht

/-! ## Two walks -/

/-- A walk `t` with questions between its calls and the same walk `u` without them; `told` says that
a question was answered that nothing is left. -/
structure Peeked (fuel : Nat) (told : Prop) (t u : Traversal σ α) : Prop where
  going : Going t
  alive : u.phase ≠ .failed
  /-- Looks at the two tell and leave the same. -/
  looks : (t.lookAhead fuel).map unmarked = (u.lookAhead fuel).map unmarked
  limit : t.limit = u.limit
  last : t.lastExamined = u.lastExamined
  codec : t.codec = u.codec
  materialize : t.materialize = u.materialize
  /-- The walk without questions is exhausted no earlier. -/
  ahead : u.phase = .exhausted → t.phase = .exhausted
  told : t.phase = .exhausted → u.phase = .exhausted ∨ told

theorem Peeked.refl (h : Going t) : Peeked fuel told t t :=
  ⟨h, h.alive, rfl, rfl, rfl, rfl, rfl, id, .inl⟩

theorem Peeked.weaken {told' : Prop} (h : Peeked fuel told t u) (htold : told → told') :
    Peeked fuel told' t u :=
  { h with told := fun hphase => (h.told hphase).imp_right htold }

/-- **A look** at the walk with questions. It is exhausted if nothing is found within the limit. -/
theorem Peeked.look {found : Bool} {phase : Phase} (h : Peeked fuel told t u)
    (hlook : t.lookAhead fuel = some (.ok found, v)) (halive : phase ≠ .failed)
    (hphase : phase = .exhausted ↔ found = false ∧ t.limit.isReached = false) :
    Peeked fuel (told ∨ found = false) (v.mark t.limit phase) u := by
  have hrun := looksAhead_of_eq hlook
  obtain ⟨hsteady, found', hfound, hspent⟩ := hrun.steady h.going.steady
  cases hfound
  obtain ⟨-, hlast, hcodec, hmaterialize⟩ := hrun.looks.kept
  have hagain := lookAhead_again hlook h.going.steady
  refine ⟨⟨hsteady, halive, fun hend => ?_⟩, h.alive, ?_, h.limit, hlast.trans h.last,
    hcodec.trans h.codec, hmaterialize.trans h.materialize, fun hu => ?_,
    fun hend => .inr (.inr (hphase.1 hend).1)⟩
  · obtain ⟨hfound, hopen⟩ := hphase.1 hend
    obtain ⟨hbuffer, hsource⟩ := hspent hfound
    exact ⟨⟨hbuffer, hsource⟩, hopen⟩
  · rw [lookAhead_unmarked, hagain, h.looks]
  · -- a walk without records shows none
    obtain ⟨hspent, hopen⟩ := h.going.ended (h.ahead hu)
    rw [lookAhead_of_spent hspent] at hlook
    cases hlook
    exact hphase.2 ⟨rfl, hopen⟩

theorem Peeked.mark_left (h : Peeked fuel told t u) (hreached : t.limit.isReached = true) :
    Peeked fuel told (t.mark t.limit .limitReached) u := by
  have hu : u.phase ≠ .exhausted := fun hu => h.going.ne_of_reached hreached (h.ahead hu)
  exact ⟨.of_ne h.going.steady (by simp [mark]) (by simp [mark]), h.alive,
    (lookAhead_unmarked _ _ _ _).trans h.looks, h.limit, h.last, h.codec, h.materialize,
    fun hphase => absurd hphase hu, (nomatch ·)⟩

theorem Peeked.mark_right (h : Peeked fuel told t u) (hreached : t.limit.isReached = true) :
    Peeked fuel told t (u.mark u.limit .limitReached) :=
  ⟨h.going, by simp [mark], h.looks.trans (lookAhead_unmarked _ _ _ _).symm, h.limit, h.last,
    h.codec, h.materialize, (nomatch ·),
    fun hphase => absurd hphase (h.going.ne_of_reached hreached)⟩

/-! ## Calls for results -/

theorem Peeked.hasNext_eq (h : Peeked fuel told t u) (hopen : t.limit.isReached = false) :
    t.hasNext fuel = u.hasNext fuel := by
  have hlooks := congrArg (Option.map fun r => (r.1, r.2.mark t.limit (foundPhase r.1))) h.looks
  rw [Option.map_map, Option.map_map] at hlooks
  rw [hasNext_of_open h.going.alive hopen, hasNext_of_open h.alive (h.limit ▸ hopen), ← h.limit]
  exact hlooks

theorem Peeked.nextItem_eq (h : Peeked fuel told t u) (hopen : t.limit.isReached = false) :
    t.nextItem fuel = u.nextItem fuel := by
  rw [nextItem, nextItem, h.hasNext_eq hopen, ← h.limit, hopen]
  rfl

theorem Peeked.next_eq (h : Peeked fuel told t u) (hopen : t.limit.isReached = false) :
    t.next fuel = u.next fuel := by
  rw [next, next, h.hasNext_eq hopen, if_neg h.going.alive, if_neg h.alive]

/-- What two walks answer to one call, and the walks after it. -/
abbrev AnsweredAlike (fuel : Nat) (told : Prop) (x y : Option (Answer α × Traversal σ α)) : Prop :=
  Option.Rel (fun a b => a.1 = b.1 ∧ Peeked fuel told a.2 b.2) x y

theorem Peeked.item {c : Call} (h : Peeked fuel told t u) (hitem : c.isItem = true) :
    AnsweredAlike fuel told (t.call fuel c) (u.call fuel c) := by
  cases hlimit : t.limit.isReached with
  | false =>
    have hsame : t.call fuel c = u.call fuel c := by
      match c, hitem with
      | .ask .nextItem, _ => rw [call, ask, call, ask, h.nextItem_eq hlimit]
      | .ask .next, _ => rw [call, ask, call, ask, h.next_eq hlimit]
    rw [← hsame]
    rcases hcall : t.call fuel c with _ | ⟨answer, v⟩
    · exact .none
    · exact .some ⟨rfl, .refl (h.going.call hcall)⟩
  | true =>
    have hlimit' : u.limit.isReached = true := h.limit ▸ hlimit
    match c, hitem with
    | .ask .nextItem, _ =>
      rw [call, ask, call, ask, nextItem, nextItem, if_pos hlimit, if_pos hlimit', h.limit]
      exact .some ⟨rfl, h⟩
    | .ask .next, _ =>
      rw [call, ask, call, ask, next, next, if_neg h.going.alive, if_neg h.alive, hasNext, hasNext,
        if_neg h.going.alive, if_neg h.alive, if_pos hlimit, if_pos hlimit']
      exact .some ⟨rfl, (h.mark_left hlimit).mark_right hlimit⟩

/-! ## Questions -/

theorem Peeked.hasNext {r : Except PagingError Bool} (h : Peeked fuel told t u)
    (hr : t.hasNext fuel = some (r, v)) : Peeked fuel (told ∨ r = .ok false) v u := by
  cases hlimit : t.limit.isReached with
  | true =>
    rw [Traversal.hasNext, if_neg h.going.alive, if_pos hlimit] at hr
    cases hr
    exact (h.mark_left hlimit).weaken .inl
  | false =>
    rw [hasNext_of_open h.going.alive hlimit] at hr
    obtain ⟨⟨r, w⟩, hlook, heq⟩ := Option.map_eq_some_iff.1 hr
    cases heq
    obtain ⟨-, found, rfl, -⟩ := (looksAhead_of_eq hlook).steady h.going.steady
    refine (h.look hlook ?_ ?_).weaken (Or.imp_right fun hfound => by rw [hfound])
    · cases found <;> simp [foundPhase]
    · cases found <;> simp [foundPhase, hlimit]

theorem Peeked.hasResultsPastLimit {r : Except PagingError Bool} (h : Peeked fuel told t u)
    (hr : t.hasResultsPastLimit fuel = some (r, v)) : Peeked fuel (told ∨ r = .ok false) v u := by
  cases hbounded : t.limit.isBounded with
  | false =>
    rw [Traversal.hasResultsPastLimit, hbounded] at hr
    cases hr
    exact h.weaken .inl
  | true =>
    cases hlimit : t.limit.isReached with
    | false =>
      rw [Traversal.hasResultsPastLimit, hbounded, hlimit] at hr
      exact h.hasNext hr
    | true =>
      rw [← t.mark_self, hasResultsPastLimit_mark h.going.alive hbounded hlimit] at hr
      obtain ⟨⟨r, w⟩, hlook, heq⟩ := Option.map_eq_some_iff.1 hr
      cases heq
      obtain ⟨-, found, rfl, -⟩ := (looksAhead_of_eq hlook).steady h.going.steady
      exact (h.look hlook (by simp [endPhase]) (by simp [endPhase, hlimit])).weaken
        (Or.imp_right fun hfound => by rw [hfound])

/-- **A question** is not seen by the walk without it. -/
theorem Peeked.peek {c : Call} (h : Peeked fuel told t u) (hpeek : c.isItem = false)
    (hcall : t.call fuel c = some (answer, v)) :
    Peeked fuel (told ∨ answer = .found (.ok false)) v u := by
  match c, hpeek with
  | .ask .hasNext, _ =>
    obtain ⟨⟨r, w⟩, hr, heq⟩ := Option.map_eq_some_iff.1 hcall
    cases heq
    exact (h.hasNext hr).weaken (Or.imp_right fun hfound => by rw [hfound])
  | .ask .hasResultsPastLimit, _ =>
    obtain ⟨⟨r, w⟩, hr, heq⟩ := Option.map_eq_some_iff.1 hcall
    cases heq
    exact (h.hasResultsPastLimit hr).weaken (Or.imp_right fun hfound => by rw [hfound])
  | .resumeKey removeHashKey, _ =>
    cases hcall
    exact h.weaken .inl
  | .position removeHashKey, _ =>
    cases hcall
    exact h.weaken .inl

/-! ## Any calls -/

/-- **Calls with questions between them**: without the questions the other calls come back alike. -/
theorem calls_peeked : ∀ (cs : List Call) {told : Prop} {t u v : Traversal σ α}
    {answers : List (Answer α)}, Peeked fuel told t u → calls fuel cs t = some (answers, v) →
      ∃ w, calls fuel (cs.filter Call.isItem) u = some (answers.filter Answer.isItem, w) ∧
        Peeked fuel (told ∨ .found (.ok false) ∈ answers) v w
  | [], told, t, u, v, answers, h, hcalls => by
    cases hcalls
    exact ⟨u, rfl, h.weaken .inl⟩
  | c :: rest, told, t, u, v, answers, h, hcalls => by
    obtain ⟨answer, t', later, hcall, hlater, rfl⟩ := calls_cons hcalls
    have hkind := isItem_of_call hcall
    -- both walks take a call for a result, and only the first a question
    cases hitem : c.isItem with
    | true =>
      have hstep := h.item hitem
      rw [hcall] at hstep
      generalize hcall' : u.call fuel c = y at hstep
      cases hstep with
      | @some _ b hb =>
        obtain ⟨rfl, hafter⟩ := hb
        obtain ⟨w', hw, hpeeked⟩ := calls_peeked rest hafter hlater
        refine ⟨w', ?_, hpeeked.weaken (Or.imp_right (List.mem_cons_of_mem _))⟩
        rw [List.filter_cons_of_pos hitem, List.filter_cons_of_pos (hkind.trans hitem), calls]
        simp only [hcall', hw]
        rfl
    | false =>
      obtain ⟨w', hw, hpeeked⟩ := calls_peeked rest (h.peek hitem hcall) hlater
      refine ⟨w', ?_, hpeeked.weaken ?_⟩
      · rw [List.filter_cons_of_neg (by simp [hitem]),
          List.filter_cons_of_neg (by simp [hkind, hitem])]
        exact hw
      · rintro ((htold | hanswer) | hmem)
        · exact .inl htold
        · exact .inr (hanswer ▸ List.mem_cons_self)
        · exact .inr (List.mem_cons_of_mem _ hmem)

theorem Peeked.start {source : σ} (hsteady : Steady source) (limit : Limit) (codec : PositionCodec)
    (m : Record → Except PagingError α) :
    Peeked fuel False (start source limit codec m) (start source limit codec m) :=
  .refl (.of_ne hsteady (by simp [Traversal.start]) (by simp [Traversal.start]))

/-! ## Positions -/

theorem encodePosition_of_exhausted {removeHashKey : Bool} (ht : t.phase = .exhausted)
    (hkind : removeHashKey = true → PageSource.kind t.source = PageSource.kind u.source)
    (hschema : PageSource.keySchema t.source = PageSource.keySchema u.source) :
    t.encodePosition removeHashKey = .ok none ∨
      t.encodePosition removeHashKey = u.encodePosition removeHashKey := by
  have hkey (schema : KeySchema) : t.currentKey schema = .ok none := by rw [currentKey, if_pos ht]
  rw [encodePosition, encodePosition, resumeKey, resumeKey, hschema]
  cases PageSource.keySchema u.source with
  | error e => exact .inr rfl
  | ok schema =>
    cases removeHashKey with
    | false => simp [hkey]
    | true =>
      have hcheck : t.checkRemoveHashKey schema = u.checkRemoveHashKey schema := by
        rw [checkRemoveHashKey, checkRemoveHashKey, hkind rfl]
      simp only [hcheck, hkey]
      cases u.checkRemoveHashKey schema with
      | error e => exact .inr rfl
      | ok _ => exact .inl rfl

theorem Peeked.position {removeHashKey : Bool} (h : Peeked fuel told t u)
    (hkind : removeHashKey = true → PageSource.kind t.source = PageSource.kind u.source)
    (hschema : PageSource.keySchema t.source = PageSource.keySchema u.source) :
    t.encodePosition removeHashKey = u.encodePosition removeHashKey ∨
      (t.phase = .exhausted ∧ told ∧ t.encodePosition removeHashKey = .ok none) := by
  by_cases ht : t.phase = .exhausted
  · rcases h.told ht with hu | htold
    · exact .inl (encodePosition_congr hkind hschema (by simp [ht, hu]) h.last h.codec)
    · rcases encodePosition_of_exhausted ht hkind hschema with hnone | hsame
      · exact .inr ⟨ht, htold, hnone⟩
      · exact .inl hsame
  · have hu : u.phase ≠ .exhausted := fun hu => ht (h.ahead hu)
    exact .inl (encodePosition_congr hkind hschema (by simp [ht, hu]) h.last h.codec)

/-- **Peeking is invisible** over a source that never fails and has more exactly if its pages say
so. The position is the same while both sources tell the same key layout, but for none after a
question that found nothing left. -/
theorem peeks_invisible {source : σ} (hsteady : Steady source) (limit : Limit)
    (codec : PositionCodec) (m : Record → Except PagingError α) (fuel : Nat) (cs : List Call)
    {answers : List (Answer α)} {t : Traversal σ α}
    (hcalls : calls fuel cs (start source limit codec m) = some (answers, t)) :
    (∀ (β : Type) [QueryStore β], Truthful (QuerySource β) ∧ ∀ s : QuerySource β, KeysKept s) ∧
    (∀ (β : Type) [ScanStore β], Truthful (ScanSource β) ∧ ∀ s : ScanSource β, KeysKept s) ∧
    (∀ (β : Type) [BatchStore β], Truthful (BatchSource β) ∧ ∀ s : BatchSource β, KeysKept s) ∧
    ∃ u, calls fuel (cs.filter Call.isItem) (start source limit codec m) =
        some (answers.filter Answer.isItem, u) ∧
      t.lastExamined = u.lastExamined ∧ t.limit = u.limit ∧
      (∀ c : Call, c.isItem = true → (t.call fuel c).map (·.1) = (u.call fuel c).map (·.1)) ∧
      (KeysKept source → PageSource.kind t.source = PageSource.kind u.source ∧
        PageSource.keySchema t.source = PageSource.keySchema u.source) ∧
      ∀ removeHashKey,
        (removeHashKey = true → PageSource.kind t.source = PageSource.kind u.source) →
        PageSource.keySchema t.source = PageSource.keySchema u.source →
          t.encodePosition removeHashKey = u.encodePosition removeHashKey ∨
            (t.phase = .exhausted ∧ .found (.ok false) ∈ answers ∧
              t.encodePosition removeHashKey = .ok none) := by
  obtain ⟨u, hu, hpeeked⟩ := calls_peeked cs (Peeked.start hsteady limit codec m) hcalls
  rw [false_or] at hpeeked
  refine ⟨fun β _ => ⟨QuerySource.truthful, QuerySource.keysKept⟩,
    fun β _ => ⟨ScanSource.truthful, ScanSource.keysKept⟩,
    fun β _ => ⟨BatchSource.truthful, BatchSource.keysKept⟩,
    u, hu, hpeeked.last, hpeeked.limit, fun c hitem => ?_, fun hkeys => ?_,
    fun removeHashKey => hpeeked.position⟩
  · have hstep := hpeeked.item hitem
    generalize t.call fuel c = x at hstep
    generalize u.call fuel c = y at hstep
    cases hstep with
    | none => rfl
    | some hsame => exact congrArg some hsame.1
  · obtain ⟨hkind, hschema⟩ := hkeys _ (calls_leads hcalls)
    obtain ⟨hkind', hschema'⟩ := hkeys _ (calls_leads hu)
    exact ⟨hkind.trans hkind'.symm, hschema.trans hschema'.symm⟩

/-- A row to a page, of which the second fails the filter and the third makes no result. -/
theorem peeks_invisible_at_table_end :
    let row (h c : String) : Record := ⟨.ofList [("h", .text h), ("c", .text c)]⟩
    let schema : KeySchema := ⟨"h", none⟩
    let table := (Table.make "t" schema 1 1).editAll
      [.insert (row "1" "x"), .insert (row "2" "y"), .insert (row "3" "x"), .insert (row "4" "y")]
    let source := WalkSource.scan ⟨table, ⟨"t", [.equal "c" (.text "x")], none⟩, .start schema⟩
    let m (r : Record) : Except PagingError Record :=
      if r.fields.get? "h" = some (.text "3") then .error (.materialize "odd") else .ok r
    let walk := start source ⟨some 5, some 5⟩ .default m
    let cs : List Call := [.position false, .ask .hasNext, .ask .next, .ask .hasResultsPastLimit,
      .ask .hasNext, .resumeKey false, .ask .nextItem, .ask .hasNext]
    Steady source ∧ KeysKept source ∧
      ∃ answers t u, calls 4 cs walk = some (answers, t) ∧
        calls 4 [.ask .next, .ask .nextItem] walk = some (answers.filter Answer.isItem, u) ∧
        u.lastExamined = some (row "3" "x") ∧ u.limit.remaining = some 3 ∧
        t.phase = .exhausted ∧ (t.position = u.position ∨ t.position = .ok none) := by
  intro row schema table source m walk cs
  have hreached : table.Reached := ⟨"t", schema, 1, 1, _, by decide +kernel, rfl⟩
  have hat : source.At (.scan ⟨"t", [.equal "c" (.text "x")], none⟩) table none :=
    ⟨rfl, rfl, by decide +kernel, .none⟩
  have hfits : source.request.Fits table := ⟨rfl, fun hrange => by cases hrange⟩
  obtain ⟨n, -, hyields⟩ := WalkSource.yields_walk hreached.wellFormed hfits hat rfl
  have hcalls : (calls 4 cs walk).map
      (fun r => (r.2.lastExamined, r.2.limit.remaining, r.2.phase)) =
        some (some (row "3" "x"), some 3, .exhausted) := by decide +kernel
  obtain ⟨⟨answers, t⟩, ht, hshown⟩ := Option.map_eq_some_iff.1 hcalls
  simp only [Prod.mk.injEq] at hshown
  obtain ⟨hlast, hremaining, hphase⟩ := hshown
  obtain ⟨-, -, -, u, hu, hlast', hlimit, -, hkeys, hposition⟩ :=
    peeks_invisible hyields.steady ⟨some 5, some 5⟩ .default m 4 cs ht
  refine ⟨hyields.steady, source.keysKept, answers, t, u, ht, hu, hlast' ▸ hlast,
    hlimit ▸ hremaining, hphase, ?_⟩
  exact (hposition false (nomatch ·) (hkeys source.keysKept).2).imp_right fun h => h.2.2

/-- A question changes the position if the source changes its key layout when it fetches, and a
record that was looked at outlives its row. -/
theorem peeks_not_invisible :
    let record (name : String) : Record := ⟨⟨[("id", .text name)], List.pairwise_singleton _ _⟩⟩
    let changing : Keyed Script := ⟨⟨[.ok ⟨[record "a"], .pending [default]⟩,
      .ok ⟨[record "b"], .done⟩], .scan⟩, [⟨"id", none⟩, ⟨"id", none⟩, ⟨"name", none⟩]⟩
    let table := (Table.make "t" ⟨"id", none⟩ 1 1).editAll
      [.insert (record "a"), .insert (record "b")]
    let scan : Request := .scan ⟨"t", [], none⟩
    let handed (events : List Event) := (Session.start table scan .default .ok none).toOption.bind
      fun session => (session.run scan .default .ok events).map (·.handed)
    (Steady changing ∧
      ∃ t u, calls 1 [.ask .next, .ask .hasNext] (start changing .unbounded .default .ok) =
          some ([.pulled (some (.ok (record "a"))), .found (.ok true)], t) ∧
        calls 1 [.ask .next] (start changing .unbounded .default .ok) =
          some ([.pulled (some (.ok (record "a")))], u) ∧
        u.position = .ok (some "aWQ9U2E%3D") ∧
        t.position = .error (.missingKeyField "name")) ∧
      handed [.ask 1 .next [], .ask 1 .hasNext [], .edit (.delete ⟨(record "b").fields⟩),
        .ask 1 .next []] = some [record "a", record "b"] ∧
      handed [.ask 1 .next [], .edit (.delete ⟨(record "b").fields⟩), .ask 1 .next []] =
        some [record "a"] := by
  intro record changing table scan handed
  have hserves : Serves changing [⟨[record "a"], .pending [default]⟩, ⟨[record "b"], .done⟩] none
      ⟨⟨[], .scan⟩, [⟨"name", none⟩]⟩ := .page rfl rfl rfl (.page rfl rfl rfl (.dry rfl))
  have htoken : (calls 1 [.ask .next] (start changing .unbounded .default .ok)).map
      (·.2.position) = some (.ok (some "aWQ9U2E%3D")) := by decide +kernel
  obtain ⟨u, hu⟩ : ∃ u, calls 1 [.ask .next] (start changing .unbounded .default .ok) =
      some ([.pulled (some (.ok (record "a")))], u) := ⟨_, rfl⟩
  rw [hu] at htoken
  exact ⟨⟨hserves.steady rfl, _, u, rfl, hu, Option.some.inj htoken, rfl⟩, by decide +kernel,
    by decide +kernel⟩

end Traversal

end CursorPaging
