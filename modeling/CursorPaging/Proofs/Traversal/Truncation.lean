import CursorPaging.Proofs.Position
import CursorPaging.Proofs.Traversal.Conservation
import CursorPaging.Proofs.Traversal.Mark

/-!
# Limits only truncate

A walk with a limit beside the same walk without one: they go through the same until the limit is
used up, and what lies past the limit is then what the other walk finds next.

* `Truncates`, `Alike`: how the two walks, and the answers to a call on both, belong together;
* `pulls`: calls for the next result; `takenOut`: the records that calls take out,
  `conserved_of_calls`: which the walk accounts for; `seen`: what two walks are compared by;
* `nextItem_alike`, `pulls_alike`: one call and all calls within the limit;
* `pastLimit_seen`, `pastLimit_keeps`, `pastLimit_again`: the question past the limit;
* **`limit_truncates`**; `limit_not_truncates`: a source that changes its key layout, and one call
  more.
-/

namespace CursorPaging

/-- Calls for the next result. -/
def pulls (count : Nat) : List Call := List.replicate count (.ask .nextItem)

theorem Answer.bind_ok {α : Type} (answer : Answer α) : answer.bind .ok = answer := by
  rcases answer with _ | (_ | _) | (_ | _ | _) | _ | _ <;> rfl

theorem Limit.eq_of_atMost {n : Nat} {limit : Limit} (h : Limit.atMost n = .ok limit) :
    n ≠ 0 ∧ limit = ⟨some n, some n⟩ := by
  unfold Limit.atMost at h
  split_ifs at h with hn
  cases h
  exact ⟨hn, rfl⟩

namespace Traversal

variable {σ α β : Type} {fuel : Nat} {t u : Traversal σ α} {l : Limit} {p : Phase}

/-! ## Walks with and without a limit -/

/-- How the limit `l` and phase `p` of a walk with a limit belong to the same walk `u` without
one. -/
structure Truncates (l : Limit) (p : Phase) (u : Traversal σ α) : Prop where
  unbounded : u.limit = .unbounded
  /-- The phases part only when the limit is used up. -/
  phase : p = if l.isReached then .limitReached else u.phase
  /-- What used the limit up was a record that was handed out. -/
  buffering : l.isReached = true → u.phase = .buffering

theorem Truncates.of_open (hunbounded : u.limit = .unbounded) (hopen : l.isReached = false)
    (hphase : u.phase = p) : Truncates l p u :=
  ⟨hunbounded, by rw [hopen, hphase]; rfl, fun h => by rw [hopen] at h; cases h⟩

theorem truncates_take (record : Record) (rest : List Record) :
    Truncates l.consume (if l.consume.isReached then .limitReached else .buffering)
      ((u.mark .unbounded .buffering).take record rest) :=
  ⟨rfl, rfl, fun _ => rfl⟩

/-- What a call answers on both walks, and the walks after it. -/
inductive Alike : Option (β × Traversal σ α) → Option (β × Traversal σ α) → Prop
  | stuck : Alike none none
  | back {r : β} {l : Limit} {p : Phase} {u : Traversal σ α} (after : Truncates l p u) :
      Alike (some (r, u.mark l p)) (some (r, u))

/-- An answer, and all of the walk after it but its limit and phase. -/
def seen (r : β × Traversal σ α) : β × σ × List Record × Option Record × Nat :=
  (r.1, r.2.source, r.2.buffer, r.2.lastExamined, r.2.pages)

theorem Alike.map_seen {x y : Option (β × Traversal σ α)} (h : Alike x y) :
    x.map seen = y.map seen := by
  cases h <;> rfl

variable [PageSource σ]

/-! ## Records taken out -/

/-- The walk whose results are the records themselves. -/
def bare (t : Traversal σ α) : Traversal σ Record := { t with materialize := .ok }

/-- The records that some calls take out, whatever they are made into. -/
def takenOut (fuel : Nat) (cs : List Call) (t : Traversal σ α) : Option (List Record) :=
  (calls fuel cs t.bare).map fun r => r.1.flatMap Answer.results

theorem conserved_of_calls {source : σ} {limit : Limit} {codec : PositionCodec}
    {m : Record → Except PagingError α} {cs : List Call} {answers : List (Answer α)}
    (hcalls : calls fuel cs (start source limit codec m) = some (answers, t)) :
    ∃ taken fetched, takenOut fuel cs (start source limit codec m) = some taken ∧
      Conserved limit taken fetched t := by
  -- both walks are images of the one over the watched source
  have hview : start source limit codec m =
      (start (Watched.fromStart source) limit codec .ok).view Watched.inner m := rfl
  have hbare : (start source limit codec m).bare =
      (start (Watched.fromStart source) limit codec .ok).view Watched.inner .ok := rfl
  rw [hview, calls_view Watched.sourceMap_inner] at hcalls
  obtain ⟨⟨raw, w⟩, hraw, heq⟩ := Option.map_eq_some_iff.1 hcalls
  cases heq
  refine ⟨raw.flatMap Answer.results, w.source.pages, ?_, ?_⟩
  · rw [takenOut, hbare, calls_view Watched.sourceMap_inner, hraw, Option.map_some, Option.map_some]
    simp only [Answer.bind_ok, List.map_id']
  · exact (conserved_calls rfl hraw (conserved_start _ limit codec .ok)).view _ _

theorem limit_of_takenOut {source : σ} {n : Nat} {limit : Limit} {codec : PositionCodec}
    {m : Record → Except PagingError α} {cs : List Call} {answers : List (Answer α)}
    {taken : List Record} (hlimit : Limit.atMost n = .ok limit)
    (hcalls : calls fuel cs (start source limit codec m) = some (answers, t))
    (htaken : takenOut fuel cs (start source limit codec m) = some taken) :
    taken.length ≤ n ∧ t.limit = ⟨some n, some (n - taken.length)⟩ := by
  obtain ⟨taken', fetched, htaken', hconserved⟩ := conserved_of_calls hcalls
  rw [htaken'] at htaken
  cases htaken
  exact hconserved.bounded n hlimit

/-! ## Calls within the limit -/

theorem nextItem_alike (fuel : Nat) (h : Truncates l p u) (hopen : l.isReached = false) :
    Alike ((u.mark l p).nextItem fuel) (u.nextItem fuel) := by
  have hp : p = u.phase := by rw [h.phase, hopen]; rfl
  have hfree : u.limit.isReached = false := by rw [h.unbounded]; rfl
  have hlimit : (u.mark l p).limit = l := rfl
  subst hp
  rw [nextItem, nextItem, hlimit, hopen, hfree]
  by_cases hfailed : u.phase = .failed
  · have hmarked : (u.mark l u.phase).phase = .failed := hfailed
    rw [hasNext, hasNext, if_pos hmarked, if_pos hfailed]
    exact .back h
  · rw [hasNext_mark hfailed hopen, hasNext_of_open hfailed hfree, h.unbounded]
    rcases hlook : u.lookAhead fuel with _ | ⟨e | _ | _, v⟩
    · exact .stuck
    · exact .back (u := v.mark .unbounded .failed) (.of_open rfl hopen rfl)
    · exact .back (u := v.mark .unbounded .exhausted) (.of_open rfl hopen rfl)
    · obtain ⟨record, rest, hbuffer⟩ := buffer_of_lookAhead hlook
      have hmarked (l : Limit) : (v.mark l .buffering).buffer = record :: rest := hbuffer
      simp only [Option.map_some, foundPhase, hmarked]
      exact .back (truncates_take record rest)

theorem calls_pulls_succ (fuel k : Nat) (t : Traversal σ α) :
    calls fuel (pulls (k + 1)) t =
      match t.nextItem fuel with
      | none => none
      | some (r, u) => (calls fuel (pulls k) u).map fun a => (.item r :: a.1, a.2) := by
  rw [pulls, List.replicate_succ, calls, call, ask]
  cases t.nextItem fuel <;> rfl

theorem pulls_of_reached (fuel : Nat) (h : t.limit.isReached = true) : ∀ k : Nat,
    calls fuel (pulls k) t =
      some (List.replicate k (.item (.error (.limitReached (t.limit.requested.getD 0)))), t)
  | 0 => rfl
  | k + 1 => by
    rw [calls_pulls_succ, nextItem, if_pos h]
    simp only [pulls_of_reached fuel h k]
    rfl

/-- **Calls for the next result** while the limit is open are answered alike. -/
theorem pulls_alike : ∀ (k : Nat) {l : Limit} {p : Phase} {u : Traversal σ α}, Truncates l p u →
    (∀ answers t, calls fuel (pulls k) (u.mark l p) = some (answers, t) →
      t.limit.isReached = false) →
      l.isReached = false → Alike (calls fuel (pulls (k + 1)) (u.mark l p))
        (calls fuel (pulls (k + 1)) u)
  | k, l, p, u, h, hlast, hopen => by
    rw [calls_pulls_succ, calls_pulls_succ]
    have hstep := nextItem_alike fuel h hopen
    generalize hx : (u.mark l p).nextItem fuel = x at hstep
    generalize hy : u.nextItem fuel = y at hstep
    cases hstep with
    | stuck => exact .stuck
    | @back r l' p' v after =>
      cases k with
      | zero => exact .back after
      | succ k =>
        have hlast' : ∀ answers t, calls fuel (pulls k) (v.mark l' p') = some (answers, t) →
            t.limit.isReached = false := by
          intro answers t ht
          refine hlast (.item r :: answers) t ?_
          rw [calls_pulls_succ, hx]
          simp only [ht]
          rfl
        have hopen' : l'.isReached = false := by
          refine Bool.eq_false_iff.2 fun hreached => ?_
          have hstays := hlast' _ _ (pulls_of_reached fuel hreached k)
          rw [show (v.mark l' p').limit = l' from rfl, hreached] at hstays
          cases hstays
        have hrest := pulls_alike k after hlast' hopen'
        dsimp only
        generalize calls fuel (pulls (k + 1)) (v.mark l' p') = x' at hrest
        generalize calls fuel (pulls (k + 1)) v = y' at hrest
        cases hrest with
        | stuck => exact .stuck
        | back after => exact .back after

/-! ## Past the limit -/

/-- **Past the limit** lies what the walk without one finds next, after the same fetches. -/
theorem pastLimit_seen (h : Truncates l p u) (hbounded : l.isBounded = true)
    (hreached : l.isReached = true) :
    ((u.mark l p).hasResultsPastLimit fuel).map seen = (u.hasNext fuel).map seen := by
  have hbuffering := h.buffering hreached
  have hp : p = .limitReached := by rw [h.phase, if_pos hreached]
  rw [hasResultsPastLimit_mark (by rw [hp]; decide) hbounded hreached,
    hasNext_of_open (by rw [hbuffering]; decide) (by rw [h.unbounded]; rfl), Option.map_map,
    Option.map_map]
  rfl

theorem pastLimit_keeps {found : Bool} {v : Traversal σ α} (halive : t.phase ≠ .failed)
    (hbounded : t.limit.isBounded = true) (hreached : t.limit.isReached = true)
    (h : t.hasResultsPastLimit fuel = some (.ok found, v)) :
    v.limit = t.limit ∧ v.phase = .limitReached ∧ v.lastExamined = t.lastExamined ∧
      v.codec = t.codec ∧ (found = true → v.buffer ≠ []) := by
  rw [← t.mark_self, hasResultsPastLimit_mark halive hbounded hreached] at h
  obtain ⟨⟨r, w⟩, hlook, heq⟩ := Option.map_eq_some_iff.1 h
  cases heq
  obtain ⟨-, hlast, hcodec, -⟩ := (looksAhead_of_eq hlook).looks.kept
  refine ⟨rfl, rfl, hlast, hcodec, fun hfound => ?_⟩
  subst hfound
  obtain ⟨record, rest, hbuffer⟩ := buffer_of_lookAhead hlook
  exact hbuffer ▸ List.cons_ne_nil record rest

theorem pastLimit_again (hphase : t.phase = .limitReached) (hbounded : t.limit.isBounded = true)
    (hreached : t.limit.isReached = true) (hbuffer : t.buffer ≠ []) : ∀ j : Nat,
    calls fuel (List.replicate j (.ask .hasResultsPastLimit)) t =
      some (List.replicate j (.found (.ok true)), t)
  | 0 => rfl
  | j + 1 => by
    have hpast := hasResultsPastLimit_mark (p := t.phase) (by rw [hphase]; decide) hbounded hreached
      fuel t
    rw [mark_self, lookAhead_of_ne_nil hbuffer] at hpast
    have hsame : t.mark t.limit .limitReached = t := by rw [← hphase, mark_self]
    simp only [List.replicate_succ, calls, call, ask, hpast, Option.map_some, endPhase, hsame,
      pastLimit_again hphase hbounded hreached hbuffer j]

/-- **A limit only truncates.** Within it, calls for the next result are answered as without it;
once it is used up, whether there are results past it is what the walk without one answers next,
after the same fetches. The position goes by the key layout that the source tells. -/
theorem limit_truncates {n : Nat} {limit : Limit} (hlimit : Limit.atMost n = .ok limit)
    (source : σ) (codec : PositionCodec) (m : Record → Except PagingError α) (fuel k : Nat)
    {taken : List Record}
    (htaken : takenOut fuel (pulls k) (start source limit codec m) = some taken)
    (hless : taken.length < n) :
    (calls fuel (pulls (k + 1)) (start source limit codec m)).map seen =
      (calls fuel (pulls (k + 1)) (start source .unbounded codec m)).map seen ∧
    ∀ answers answers' t u all,
      calls fuel (pulls (k + 1)) (start source limit codec m) = some (answers, t) →
      calls fuel (pulls (k + 1)) (start source .unbounded codec m) = some (answers', u) →
      takenOut fuel (pulls (k + 1)) (start source limit codec m) = some all → all.length = n →
      t.phase = .limitReached ∧
      (∀ fuel j, calls fuel (pulls j) t =
        some (List.replicate j (.item (.error (.limitReached n))), t)) ∧
      ∀ fuel, (t.hasResultsPastLimit fuel).map seen = (u.hasNext fuel).map seen ∧
        ∀ found v, t.hasResultsPastLimit fuel = some (.ok found, v) →
          v.limit.remaining = some 0 ∧ v.phase = .limitReached ∧
          v.lastExamined = t.lastExamined ∧
          (PageSource.keySchema v.source = PageSource.keySchema t.source →
            v.position = t.position) ∧
          (found = true → ∀ fuel j, calls fuel (List.replicate j (.ask .hasResultsPastLimit)) v =
            some (List.replicate j (.found (.ok true)), v)) := by
  have hopen : limit.isReached = false := by
    obtain ⟨hn, rfl⟩ := Limit.eq_of_atMost hlimit
    simp [Limit.isReached, hn]
  have htwins : Truncates limit .fresh (start source .unbounded codec m) := .of_open rfl hopen rfl
  have halike : Alike (calls fuel (pulls (k + 1)) (start source limit codec m))
      (calls fuel (pulls (k + 1)) (start source .unbounded codec m)) := by
    refine pulls_alike k htwins (fun answers t ht => ?_) hopen
    obtain ⟨-, hleft⟩ := limit_of_takenOut hlimit ht htaken
    have hne : n - taken.length ≠ 0 := by omega
    simp [hleft, Limit.isReached, hne]
  refine ⟨halike.map_seen, ?_⟩
  intro answers answers' t u all hcalls hfree hall hlength
  obtain ⟨-, hleft⟩ := limit_of_takenOut hlimit hcalls hall
  rw [hlength, Nat.sub_self] at hleft
  have hreached : t.limit.isReached = true := by rw [hleft]; rfl
  have hbounded : t.limit.isBounded = true := by rw [hleft]; rfl
  rw [hcalls, hfree] at halike
  cases halike with
  | @back _ l p _ after =>
    have hphase : (u.mark l p).phase = .limitReached := after.phase.trans (if_pos hreached)
    have halive : (u.mark l p).phase ≠ .failed := by rw [hphase]; decide
    refine ⟨hphase, fun fuel j => ?_, fun fuel => ⟨pastLimit_seen after hbounded hreached, ?_⟩⟩
    · have hstays := pulls_of_reached fuel hreached j
      rw [hleft] at hstays
      exact hstays
    · intro found v hpast
      obtain ⟨hlimit', hphase', hlast, hcodec, hbuffer⟩ :=
        pastLimit_keeps halive hbounded hreached hpast
      refine ⟨by rw [hlimit', hleft], hphase', hlast, fun hschema => ?_, fun hfound fuel j => ?_⟩
      · exact encodePosition_congr (fun h => by cases h) hschema (by rw [hphase', hphase]) hlast
          hcodec
      · exact pastLimit_again hphase' (hlimit' ▸ hbounded) (hlimit' ▸ hreached) (hbuffer hfound) j

/-- The limit is used up at the end of a page, by a record that makes no result. An empty page comes
next. -/
theorem limit_truncates_at_page_end :
    let record (name : String) : Record := ⟨⟨[("name", .text name)], List.pairwise_singleton _ _⟩⟩
    let script : Script := ⟨[.ok ⟨[record "a", default], .done⟩, .ok ⟨[], .pending [default]⟩,
      .ok ⟨[record "c"], .done⟩, .error .noLimit], .scan⟩
    let m (r : Record) : Except PagingError Record :=
      if r.fields.isEmpty then .error (.materialize "empty") else .ok r
    let limited := start script ⟨some 2, some 2⟩ .default m
    let free := start script .unbounded .default m
    takenOut 4 (pulls 1) limited = some [record "a"] ∧ [record "a"].length < 2 ∧
      (calls 4 (pulls 2) limited).map seen = (calls 4 (pulls 2) free).map seen ∧
      ∃ answers t u v, calls 4 (pulls 2) limited = some (answers, t) ∧
        calls 4 (pulls 2) free = some (answers, u) ∧
        (t.hasResultsPastLimit 4).map seen = (u.hasNext 4).map seen ∧
        t.hasResultsPastLimit 4 = some (.ok true, v) ∧ v.buffer = [record "c"] ∧
        v.limit.remaining = some 0 ∧ v.lastExamined = some default ∧
        calls 0 (List.replicate 3 (.ask .hasResultsPastLimit)) v =
          some (List.replicate 3 (.found (.ok true)), v) := by
  intro record script m limited free
  have htaken : takenOut 4 (pulls 1) limited = some [record "a"] := by decide +kernel
  have hall : takenOut 4 (pulls 2) limited = some [record "a", default] := by decide +kernel
  have hpast : ((calls 4 (pulls 2) limited).bind fun r => r.2.hasResultsPastLimit 4).map
      (fun r => (r.1.toOption, r.2.buffer, r.2.lastExamined)) =
      some (some true, [record "c"], some default) := by decide +kernel
  obtain ⟨hsame, hafter⟩ :=
    limit_truncates (n := 2) rfl script .default m 4 1 htaken (by decide)
  obtain ⟨⟨found, v⟩, hv, hshown⟩ := Option.map_eq_some_iff.1 hpast
  obtain ⟨⟨answers, t⟩, ht, hasked⟩ := Option.bind_eq_some_iff.1 hv
  have hfree := hsame
  rw [show calls 4 (pulls 2) (start script ⟨some 2, some 2⟩ .default m) = _ from ht] at hfree
  obtain ⟨⟨answers', u⟩, hu, hseen⟩ := Option.map_eq_some_iff.1 hfree.symm
  obtain rfl : answers' = answers := congrArg Prod.fst hseen
  obtain ⟨-, -, hlook⟩ := hafter _ _ _ _ _ ht hu hall rfl
  obtain ⟨hsees, hkeeps⟩ := hlook 4
  rcases found with e | _ | _
  · cases hshown
  · cases hshown
  · obtain ⟨hleft, -, hlast, -, hagain⟩ := hkeeps true v hasked
    simp only [Except.toOption, Prod.mk.injEq, true_and] at hshown
    exact ⟨htaken, by decide, hsame, answers', t, u, v, ht, hu, hsees, hasked, hshown.1, hleft,
      hshown.2, hagain rfl 0 3⟩

/-- A look past the limit changes the position if the source changes its key layout when it fetches,
and one call more goes on to the next record only where no limit is. -/
theorem limit_not_truncates :
    let record (name : String) : Record := ⟨⟨[("id", .text name)], List.pairwise_singleton _ _⟩⟩
    let changing : Keyed Script := ⟨⟨[.ok ⟨[record "a"], .done⟩, .ok ⟨[record "b"], .done⟩], .scan⟩,
      [⟨"id", none⟩, ⟨"id", none⟩, ⟨"name", none⟩]⟩
    let pair : Script := ⟨[.ok ⟨[record "a", record "b"], .done⟩], .scan⟩
    (∃ t u, calls 1 (pulls 1) (start changing ⟨some 1, some 1⟩ .default .ok) =
          some ([.item (.ok (record "a"))], t) ∧
        t.position = .ok (some "aWQ9U2E%3D") ∧
        t.hasResultsPastLimit 1 = some (.ok true, u) ∧
        u.position = .error (.missingKeyField "name")) ∧
      (calls 1 (pulls 2) (start pair ⟨some 1, some 1⟩ .default Except.ok)).bind
          (fun walk => (walk.2.hasResultsPastLimit 1).map (·.1)) = some (.ok true) ∧
      (calls 1 (pulls 2) (start pair .unbounded .default Except.ok)).bind
          (fun walk => (walk.2.hasNext 1).map (·.1)) = some (.ok false) := by
  intro record changing pair
  have htoken : (calls 1 (pulls 1) (start changing ⟨some 1, some 1⟩ .default .ok)).map
      (·.2.position) = some (.ok (some "aWQ9U2E%3D")) := by decide +kernel
  obtain ⟨t, ht⟩ : ∃ t, calls 1 (pulls 1) (start changing ⟨some 1, some 1⟩ .default .ok) =
      some ([.item (.ok (record "a"))], t) := ⟨_, rfl⟩
  rw [ht] at htoken
  have hrun := ht
  obtain ⟨u, hlook, hposition⟩ : ∃ u, t.hasResultsPastLimit 1 = some (.ok true, u) ∧
      u.position = .error (.missingKeyField "name") := by
    cases hrun
    exact ⟨_, rfl, rfl⟩
  exact ⟨⟨t, u, ht, Option.some.inj htoken, hlook, hposition⟩, by decide +kernel,
    by decide +kernel⟩

end Traversal

end CursorPaging
