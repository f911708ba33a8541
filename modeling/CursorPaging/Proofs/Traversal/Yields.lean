import CursorPaging.Proofs.Traversal.ListWalk

/-!
# Sources that play a list

A source may cut a list into pages as it likes, with empty pages between. A walk over it is the walk
over the list, call by call, and needs no more fuel than there are pages.

* `Yields`: a source that hands out a list and ends; `Along`, `Follows`: a walk over such a source
  and the walk over the list;
* `fetchRecords_along`, `hasNext_follows`, `take_follows`;
* **`ask_follows`**, **`asks_follows`**: both give the same answers;
* `resumeKey_follows`: and the same position.
-/

namespace CursorPaging

/-! ## Sources that play a list -/

/-- A source that hands out some records with that many fetches and then has no more. Whether it has
more is what the continuation of its last page says. -/
inductive Yields {σ : Type} [PageSource σ] (schema : KeySchema) : Nat → σ → List Record → Prop
  | dry {s : σ} (keySchema : PageSource.keySchema s = .ok schema)
      (more : PageSource.hasMore s = false) : Yields schema 0 s []
  | page {n : Nat} {s u : σ} {page : Page} {records : List Record}
      (keySchema : PageSource.keySchema s = .ok schema) (more : PageSource.hasMore s = true)
      (fetch : PageSource.fetchPage s = (.ok page, u))
      (continues : PageSource.hasMore u = page.continuation.isMore)
      (rest : Yields schema n u records) : Yields schema (n + 1) s (page.records ++ records)

theorem Yields.keySchema_eq {σ : Type} [PageSource σ] {schema : KeySchema} {n : Nat} {s : σ}
    {records : List Record} (h : Yields schema n s records) :
    PageSource.keySchema s = .ok schema := by
  cases h <;> assumption

namespace Traversal

variable {σ α : Type} [PageSource σ] {schema : KeySchema} {codec : PositionCodec}
  {m : Record → Except PagingError α} {n fuel : Nat} {t : Traversal σ α} {w : ListWalk}

/-- A walk over a source that plays a list, and the walk over that list, but for the phase. -/
structure Along (schema : KeySchema) (codec : PositionCodec) (m : Record → Except PagingError α)
    (n : Nat) (t : Traversal σ α) (w : ListWalk) : Prop where
  left : ∃ rest, Yields schema n t.source rest ∧ w.left = t.buffer ++ rest
  limit : t.limit = w.limit
  last : t.lastExamined = w.last
  codec : t.codec = codec
  materialize : t.materialize = m

theorem Along.phase (h : Along schema codec m n t w) (phase : Phase) :
    Along schema codec m n { t with phase } w :=
  ⟨h.left, h.limit, h.last, h.codec, h.materialize⟩

theorem Along.told (h : Along schema codec m n t w) (told : Bool) :
    Along schema codec m n t { w with told } :=
  ⟨h.left, h.limit, h.last, h.codec, h.materialize⟩

/-- **Fetching** finds a record exactly when one is left. -/
theorem fetchRecords_along {s : σ} {rest : List Record} (hyields : Yields schema n s rest) :
    ∀ {fuel : Nat} {t : Traversal σ α}, n ≤ fuel → t.source = s → t.buffer = [] →
      Along schema codec m n t w → w.left = rest →
        ∃ u k, fetchRecords fuel t = some (.ok !w.left.isEmpty, u) ∧ k ≤ n ∧
          Along schema codec m k u w ∧ u.phase = t.phase ∧ (w.left = [] → u.buffer = []) ∧
          (u.buffer = [] → w.left = []) := by
  induction hyields with
  | dry keySchema more =>
    intro fuel t _ hs hbuffer h hleft
    subst hs
    refine ⟨t, 0, ?_, Nat.le_refl 0, h, rfl, fun _ => hbuffer, fun _ => hleft⟩
    unfold fetchRecords
    rw [more, hleft]
    rfl
  | @page n s u page records keySchema more fetch continues hrest ih =>
    intro fuel t hfuel hs hbuffer h hleft
    subst hs
    obtain ⟨fuel, rfl⟩ : ∃ k, fuel = k + 1 := ⟨fuel - 1, by omega⟩
    unfold fetchRecords
    simp only [more, if_true, fetch]
    by_cases hrecords : page.records = []
    · rw [hrecords, List.nil_append] at hleft
      have hnext : Along schema codec m n { t with source := u, pages := t.pages + 1 } w :=
        ⟨⟨records, hrest, by rw [hbuffer]; exact hleft⟩, h.limit, h.last, h.codec, h.materialize⟩
      simp only [hrecords, List.isEmpty_nil, Bool.not_true, Bool.false_eq_true, if_false]
      cases hmore : page.continuation.isMore with
      | true =>
        obtain ⟨v, k, hfetch, hk, hv⟩ := ih (t := { t with source := u, pages := t.pages + 1 })
          (Nat.le_of_succ_le_succ hfuel) rfl hbuffer hnext hleft
        exact ⟨v, k, by simpa using hfetch, by omega, hv⟩
      | false =>
        -- a source that has no more is dry
        have hnil : records = [] := by
          cases hrest with
          | dry => rfl
          | page _ more' => rw [continues, hmore] at more'; cases more'
        rw [hnil] at hleft
        refine ⟨_, n, ?_, by omega, hnext, rfl, fun _ => hbuffer, fun _ => hleft⟩
        simp [hleft]
    · have hsome : page.records.isEmpty = false := by simpa using hrecords
      have hopen : w.left.isEmpty = false := by simp [hleft, hrecords]
      simp only [hsome, hopen, Bool.not_false, if_true]
      refine ⟨_, n, rfl, by omega,
        ⟨⟨records, hrest, ?_⟩, h.limit, h.last, h.codec, h.materialize⟩, rfl, ?_, ?_⟩
      · rw [hbuffer, hleft]
        rfl
      · intro hnil
        rw [hnil] at hopen
        cases hopen
      · intro hnil
        exact absurd (List.append_eq_nil_iff.1 hnil).2 hrecords

theorem lookAhead_along (h : Along schema codec m n t w) (hfuel : n ≤ fuel) :
    ∃ u k, t.lookAhead fuel = some (.ok !w.left.isEmpty, u) ∧ k ≤ n ∧ Along schema codec m k u w ∧
      (t.phase = .limitReached → u.phase = .limitReached) ∧ (u.buffer = [] → w.left = []) := by
  obtain ⟨rest, hyields, hleft⟩ := h.left
  unfold lookAhead
  by_cases hbuffer : t.buffer = []
  · have hnone : t.buffer.isEmpty = true := by simpa using hbuffer
    rw [hbuffer, List.nil_append] at hleft
    simp only [hnone, Bool.not_true, Bool.false_eq_true, if_false]
    split_ifs with hphase
    · obtain ⟨u, k, hfetch, hk, hu, hsame, -, hnil⟩ :=
        fetchRecords_along hyields hfuel rfl hbuffer h hleft
      exact ⟨u, k, hfetch, hk, hu, fun hp => hsame.trans hp, hnil⟩
    · obtain ⟨u, k, hfetch, hk, hu, -, -, hnil⟩ := fetchRecords_along
        (t := { t with phase := .lookingAhead }) hyields hfuel rfl hbuffer (h.phase _) hleft
      exact ⟨u, k, hfetch, hk, hu, fun hp => absurd hp hphase, hnil⟩
  · have hsome : t.buffer.isEmpty = false := by simpa using hbuffer
    have hopen : w.left.isEmpty = false := by simp [hleft, hbuffer]
    simp only [hsome, hopen, Bool.not_false, if_true]
    exact ⟨t, n, rfl, Nat.le_refl n, h, id, fun hnil => absurd hnil hbuffer⟩

/-! ## Answers -/

/-- A walk over a source that plays a list, and the walk over that list. -/
structure Follows (schema : KeySchema) (codec : PositionCodec) (m : Record → Except PagingError α)
    (n : Nat) (t : Traversal σ α) (w : ListWalk) : Prop
    extends Along schema codec m n t w where
  alive : t.phase ≠ .failed
  exhausted : t.phase = .exhausted ↔ w.told = true
  told : w.told = true → w.left = [] ∧ w.limit.isReached = false

theorem Follows.told_of_reached (h : Follows schema codec m n t w)
    (hlimit : w.limit.isReached = true) : w.told = false := by
  refine Bool.eq_false_iff.2 fun htold => ?_
  rw [(h.told htold).2] at hlimit
  cases hlimit

theorem Follows.told_of_left {record : Record} {rest : List Record}
    (h : Follows schema codec m n t w) (hleft : w.left = record :: rest) : w.told = false := by
  refine Bool.eq_false_iff.2 fun htold => ?_
  rw [(h.told htold).1] at hleft
  cases hleft

theorem hasNext_follows (h : Follows schema codec m n t w) (hfuel : n ≤ fuel) :
    ∃ u k, t.hasNext fuel = some (.ok w.hasNext.1, u) ∧ k ≤ n ∧
      Follows schema codec m k u w.hasNext.2 ∧ (w.hasNext.1 = true → u.buffer ≠ []) := by
  unfold hasNext
  rw [if_neg h.alive, show t.limit.isReached = w.limit.isReached from congrArg _ h.limit]
  cases hlimit : w.limit.isReached with
  | true =>
    rw [ListWalk.hasNext_of_reached hlimit, if_pos rfl]
    refine ⟨_, n, rfl, Nat.le_refl n, ⟨h.toAlong.phase _, by simp, ?_, h.told⟩, by simp⟩
    simp [h.told_of_reached hlimit]
  | false =>
    obtain ⟨u, k, hlook, hk, hu, -, hnil⟩ := lookAhead_along h.toAlong hfuel
    rw [hlook, if_neg (by simp)]
    cases hleft : w.left with
    | nil =>
      rw [ListWalk.hasNext_of_nil hlimit hleft]
      refine ⟨_, k, rfl, hk, ⟨(hu.phase .exhausted).told true, by simp, by simp, ?_⟩, by simp⟩
      exact fun _ => ⟨hleft, hlimit⟩
    | cons record rest =>
      have htold := h.told_of_left hleft
      have hbuffer : u.buffer ≠ [] := fun hnone => by
        rw [hnil hnone] at hleft
        cases hleft
      rw [ListWalk.hasNext_of_cons hlimit hleft htold]
      exact ⟨_, k, rfl, hk, ⟨hu.phase .buffering, by simp, by simp [htold], h.told⟩,
        fun _ => hbuffer⟩

theorem take_follows {record : Record} {rest : List Record} (h : Follows schema codec m n t w)
    (hleft : w.left = record :: rest) (hbuffer : t.buffer ≠ []) :
    ∃ more, t.buffer = record :: more ∧
      Follows schema codec m n (t.take record more) (w.take record rest) := by
  obtain ⟨others, hyields, hothers⟩ := h.left
  obtain ⟨first, more, hfirst⟩ := List.exists_cons_of_ne_nil hbuffer
  rw [hfirst, hleft, List.cons_append] at hothers
  obtain ⟨rfl, hrest⟩ := List.cons.inj hothers
  have htold := h.told_of_left hleft
  have halong : Along schema codec m n (t.take record more) (w.take record rest) :=
    ⟨⟨others, hyields, hrest⟩, congrArg Limit.consume h.limit, rfl, h.codec, h.materialize⟩
  refine ⟨more, hfirst, halong, ?_, ?_, ?_⟩
  · simp only [take]
    split_ifs
    · simp
    · exact h.alive
  · have hphase : t.phase ≠ .exhausted := fun hphase => by
      rw [h.exhausted, htold] at hphase
      cases hphase
    simp only [take, ListWalk.take, htold, Bool.false_eq_true, iff_false]
    split_ifs
    · simp
    · exact hphase
  · intro htold'
    rw [show (w.take record rest).told = w.told from rfl, htold] at htold'
    cases htold'

theorem nextItem_follows (h : Follows schema codec m n t w) (hfuel : n ≤ fuel) :
    ∃ u k, t.ask fuel .nextItem = some ((w.ask .nextItem).1.bind m, u) ∧ k ≤ n ∧
      Follows schema codec m k u (w.ask .nextItem).2 := by
  obtain ⟨u, k, hnext, hk, hu, hbuffer⟩ := hasNext_follows h hfuel
  have hlimit : t.limit = w.limit := h.limit
  rw [ask, nextItem, hlimit, hnext]
  cases hreached : w.limit.isReached with
  | true =>
    rw [ListWalk.nextItem_of_reached hreached]
    exact ⟨t, n, rfl, Nat.le_refl n, h⟩
  | false =>
    cases hleft : w.left with
    | nil =>
      rw [ListWalk.nextItem_of_nil hreached hleft]
      rw [ListWalk.hasNext_of_nil hreached hleft] at hu ⊢
      exact ⟨u, k, rfl, hk, hu⟩
    | cons record rest =>
      rw [ListWalk.nextItem_of_cons hreached hleft]
      rw [ListWalk.hasNext_of_cons hreached hleft (h.told_of_left hleft)] at hu hbuffer ⊢
      obtain ⟨more, hmore, htake⟩ := take_follows hu hleft (hbuffer rfl)
      simp only [hmore, hu.materialize]
      exact ⟨_, k, rfl, hk, htake⟩

theorem next_follows (h : Follows schema codec m n t w) (hfuel : n ≤ fuel) :
    ∃ u k, t.ask fuel .next = some ((w.ask .next).1.bind m, u) ∧ k ≤ n ∧
      Follows schema codec m k u (w.ask .next).2 := by
  obtain ⟨u, k, hnext, hk, hu, -⟩ := hasNext_follows h hfuel
  rw [ask, next, if_neg h.alive, hnext]
  cases hreached : w.limit.isReached with
  | true =>
    rw [ListWalk.next_of_reached hreached]
    rw [ListWalk.hasNext_of_reached hreached] at hu ⊢
    exact ⟨u, k, rfl, hk, hu⟩
  | false =>
    cases hleft : w.left with
    | nil =>
      rw [ListWalk.next_of_nil hreached hleft]
      rw [ListWalk.hasNext_of_nil hreached hleft] at hu ⊢
      exact ⟨u, k, rfl, hk, hu⟩
    | cons record rest =>
      rw [ListWalk.hasNext_of_cons hreached hleft (h.told_of_left hleft)] at hu ⊢
      obtain ⟨v, j, hitem, hj, hv⟩ := nextItem_follows hu (Nat.le_trans hk hfuel)
      rw [ListWalk.nextItem_of_cons hreached hleft] at hitem hv
      rw [ListWalk.next_of_cons hreached hleft]
      obtain ⟨⟨item, x⟩, hfound, heq⟩ := Option.map_eq_some_iff.1 hitem
      obtain ⟨hanswer, rfl⟩ := Prod.mk.inj heq
      obtain rfl : item = m record := Answer.item.inj hanswer
      refine ⟨x, j, ?_, Nat.le_trans hj hk, hv⟩
      simp only [hfound]
      rfl

theorem hasResultsPastLimit_follows (h : Follows schema codec m n t w) (hfuel : n ≤ fuel) :
    ∃ u k, t.ask fuel .hasResultsPastLimit =
        some ((w.ask .hasResultsPastLimit).1.bind m, u) ∧ k ≤ n ∧
      Follows schema codec m k u (w.ask .hasResultsPastLimit).2 := by
  have hbounded : t.limit.isBounded = w.limit.isBounded := congrArg _ h.limit
  have hlimit : t.limit.isReached = w.limit.isReached := congrArg _ h.limit
  rw [ask, hasResultsPastLimit, ListWalk.ask, hbounded, hlimit, if_neg h.alive]
  cases w.limit.isBounded with
  | false => exact ⟨t, n, rfl, Nat.le_refl n, h⟩
  | true =>
    cases hreached : w.limit.isReached with
    | true =>
      obtain ⟨u, k, hlook, hk, hu, hphase, -⟩ :=
        lookAhead_along (h.toAlong.phase .limitReached) hfuel
      refine ⟨u, k, by simp [hlook, Answer.bind], hk, ⟨hu, ?_, ?_, h.told⟩⟩
      · simp [hphase rfl]
      · simp [hphase rfl, h.told_of_reached hreached]
    | false =>
      obtain ⟨u, k, hnext, hk, hu, -⟩ := hasNext_follows h hfuel
      exact ⟨u, k, by simp [hnext, Answer.bind], hk, hu⟩

/-- **A call is answered as on a list at hand.** -/
theorem ask_follows (h : Follows schema codec m n t w) (hfuel : n ≤ fuel) (a : Ask) :
    ∃ u k, t.ask fuel a = some ((w.ask a).1.bind m, u) ∧ k ≤ n ∧
      Follows schema codec m k u (w.ask a).2 := by
  cases a with
  | hasNext =>
    obtain ⟨u, k, hnext, hk, hu, -⟩ := hasNext_follows h hfuel
    exact ⟨u, k, by rw [ask, hnext]; rfl, hk, hu⟩
  | nextItem => exact nextItem_follows h hfuel
  | next => exact next_follows h hfuel
  | hasResultsPastLimit => exact hasResultsPastLimit_follows h hfuel

/-- **All calls are answered as on a list at hand.** -/
theorem asks_follows : ∀ (as : List Ask) {n : Nat} {t : Traversal σ α} {w : ListWalk},
    Follows schema codec m n t w → n ≤ fuel →
      ∃ u k, calls fuel (as.map .ask) t = some ((w.asks as).1.map (·.bind m), u) ∧
        Follows schema codec m k u (w.asks as).2
  | [], n, t, w, h, _ => ⟨t, n, rfl, h⟩
  | a :: rest, n, t, w, h, hfuel => by
    obtain ⟨u, k, hask, hk, hu⟩ := ask_follows h hfuel a
    obtain ⟨v, j, hrest, hv⟩ := asks_follows rest hu (Nat.le_trans hk hfuel)
    refine ⟨v, j, ?_, hv⟩
    rw [List.map_cons, calls, call, hask]
    simp only [hrest]
    rfl

theorem start_follows (codec : PositionCodec) (m : Record → Except PagingError α) {s : σ}
    {records : List Record} (hyields : Yields schema n s records) (limit : Limit) :
    Follows schema codec m n (start s limit codec m) (.start records limit) where
  left := ⟨records, hyields, rfl⟩
  limit := rfl
  last := rfl
  codec := rfl
  materialize := rfl
  alive := by simp [start]
  exhausted := by simp [start, ListWalk.start]
  told h := by cases h

theorem resumeKey_follows (h : Follows schema codec m n t w) :
    t.resumeKey false = w.resumeKey schema := by
  obtain ⟨rest, hyields, -⟩ := h.left
  have hlast : t.lastExamined = w.last := h.last
  rw [resumeKey, hyields.keySchema_eq, ListWalk.resumeKey]
  simp only [Bool.false_eq_true, if_false, currentKey, hlast]
  cases htold : w.told with
  | true =>
    rw [if_pos (h.exhausted.2 htold)]
  | false =>
    rw [if_neg fun hphase => by simp [h.exhausted.1 hphase] at htold]
    cases w.last <;> rfl

end Traversal

end CursorPaging
