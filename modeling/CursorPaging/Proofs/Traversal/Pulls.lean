import CursorPaging.Proofs.Traversal.Served
import CursorPaging.Proofs.Traversal.Steady

/-!
# Walks pulled to their end

The next result is asked for until there is none. Over a source that never fails the walk ends with
its limit used up, or with nothing left, and then it can still tell which of the two it is.

* `Pulls`: such calls and the records that they hand out; `Pulls.kept`: what they leave of a walk;
* `Over`: a walk that has come to its end; **`exists_pulls`**: every walk comes to it;
* **`hasResultsPastLimit_of_over`**: whether there is more past the limit;
* `Yields.exists_plays`, `Plays.of_map`: sources that play the pages of a list.
-/

namespace CursorPaging

open Relation

namespace Traversal

variable {σ α : Type} [PageSource σ] {fuel : Nat} {t u v : Traversal σ α}
  {records taken left : List Record}

/-- The next result is asked for until there is none; what is handed out is made of some records. -/
inductive Pulls (fuel : Nat) : Traversal σ α → List Record → Traversal σ α → Prop
  | stop {t u : Traversal σ α} (next : t.next fuel = some (none, u)) (looks : Looks t u) :
      Pulls fuel t [] u
  | take {t v u : Traversal σ α} {record : Record} {taken : List Record}
      (next : t.next fuel = some (some (t.materialize record), v)) (takes : Takes t record v)
      (rest : Pulls fuel v taken u) : Pulls fuel t (record :: taken) u

/-- What pulling leaves of a walk: each record counts towards the limit, and the last one is where
to go on. -/
structure PullKept (t : Traversal σ α) (taken : List Record) (u : Traversal σ α) : Prop where
  limit : u.limit = ⟨t.limit.requested, t.limit.remaining.map (· - taken.length)⟩
  last : u.lastExamined = taken.getLast?.or t.lastExamined
  codec : u.codec = t.codec
  leads : ReflTransGen Leads t.source u.source

theorem Looks.leads (h : Looks t u) : ReflTransGen Leads t.source u.source :=
  h.keeps (P := fun v => ReflTransGen Leads t.source v.source) Look.leads .refl

theorem Takes.leads {record : Record} (h : Takes t record u) :
    ReflTransGen Leads t.source u.source := by
  obtain ⟨v, rest, hlooks, -, -, rfl⟩ := h
  exact hlooks.leads

theorem Looks.pullKept (h : Looks t u) : PullKept t [] u := by
  obtain ⟨hlimit, hlast, hcodec, -⟩ := h.kept
  exact ⟨by rw [hlimit]; simp, hlast, hcodec, h.leads⟩

theorem Pulls.kept (h : Pulls fuel t taken u) : PullKept t taken u := by
  induction h with
  | stop next looks => exact looks.pullKept
  | @take t v u record taken next takes rest ih =>
    obtain ⟨hlimit, hlast, hcodec, -⟩ := takes.kept
    refine ⟨?_, ?_, ih.codec.trans hcodec, takes.leads.trans ih.leads⟩
    · rw [ih.limit, hlimit, Limit.consume, Option.map_map, List.length_cons]
      congr 2
      funext n
      simp only [Function.comp]
      omega
    · rw [ih.last, hlast, List.getLast?_cons]
      cases taken.getLast? <;> rfl

/-! ## The end -/

/-- A walk that has come to its end: its limit is used up and some records are left, or it is
exhausted within its limit. -/
inductive Over (fuel : Nat) (left : List Record) (u : Traversal σ α) : Prop
  | used (phase : u.phase = .limitReached) (limit : u.limit.isReached = true)
      (holds : Holds fuel u left none) : Over fuel left u
  | dry (phase : u.phase = .exhausted) (limit : u.limit.isReached = false) (none_left : left = [])
      (spent : u.Spent) : Over fuel left u

theorem over_of_reached (h : Holds fuel t records none) (hlimit : t.limit.isReached = true) :
    Over fuel records { t with phase := .limitReached } := .used rfl hlimit h

theorem exists_dry (hlaw : Truthful σ) (h : Holds fuel t [] none) (halive : t.phase ≠ .failed)
    (hopen : t.limit.isReached = false) :
    ∃ u, t.next fuel = some (none, u) ∧ Looks t u ∧ Over fuel [] u := by
  obtain ⟨u, hnext⟩ := next_ends h halive hopen
  cases next_of_eq hnext with
  | failed phase => exact absurd phase halive
  | nothing next =>
    refine ⟨u, hnext, next.looks, ?_⟩
    cases next with
    | reached alive limit => rw [hopen] at limit; cases limit
    | nothing alive limit look =>
      have hspent := look.drained.spent hlaw
      exact .dry rfl (look.limit ▸ hopen) rfl ⟨hspent.buffer, hspent.source⟩

/-- **Every walk comes to its end**, with as many records handed out as its limit lets through. -/
theorem exists_pulls (hlaw : Truthful σ) : ∀ {records : List Record} {t : Traversal σ α},
    Holds fuel t records none → t.phase ≠ .failed →
      ∃ u, Pulls fuel t (t.limit.cut records) u ∧
        Over fuel (records.drop (t.limit.cut records).length) u
  | records, t, h, halive => by
    cases hlimit : t.limit.isReached with
    | true =>
      rw [Limit.cut_of_reached hlimit]
      exact ⟨_, .stop (next_of_reached fuel halive hlimit) (.single (.phase t .limitReached)),
        over_of_reached h hlimit⟩
    | false =>
      match records, h with
      | [], h =>
        obtain ⟨u, hnext, hlooks, hover⟩ := exists_dry hlaw h halive hlimit
        have hnil : t.limit.cut [] = [] := by
          rw [Limit.cut]
          split <;> simp
        rw [hnil]
        exact ⟨u, .stop hnext hlooks, hover⟩
      | record :: rest, h =>
        obtain ⟨v, hnext, htakes, hrest, hphase⟩ := next_takes h halive hlimit
        obtain ⟨u, hpulls, hover⟩ :=
          exists_pulls hlaw hrest (by rw [hphase]; split_ifs <;> simp)
        rw [htakes.kept.1] at hpulls hover
        rw [Limit.cut_cons hlimit]
        exact ⟨u, .take hnext htakes hpulls, hover⟩

/-! ## Questions at the end -/

/-- **Whether there is more past the limit** is whether records are left. -/
theorem hasResultsPastLimit_of_over (h : Over fuel left u) (hbounded : u.limit.isBounded = true) :
    ∃ v, u.hasResultsPastLimit fuel = some (.ok !left.isEmpty, v) ∧ Looks u v ∧
      v.phase = u.phase := by
  cases h with
  | used phase limit holds =>
    obtain ⟨r, v, hlook, hshows⟩ := lookAhead_shows holds (by simp [phase])
    have hrun := looksAhead_of_eq hlook
    have hanswer : u.hasResultsPastLimit fuel = some (r, v) := by
      have hsame : { u with phase := .limitReached } = u := by rw [← phase]
      rw [hasResultsPastLimit, hbounded, limit, if_neg (by simp), if_neg (by simp),
        if_neg (by simp [phase]), hsame, hlook]
    have hphase := hrun.phase_past phase
    cases hshows with
    | record buffer alive holds' =>
      have hsome : left.isEmpty = false := by simpa using holds'.ne_nil buffer
      exact ⟨v, by rw [hanswer, hsome]; rfl, hrun.looks, hphase.trans phase.symm⟩
    | nothing none_left end_reached =>
      exact ⟨v, by rw [hanswer, none_left]; rfl, hrun.looks, hphase.trans phase.symm⟩
    | failure none_left ends => cases ends
  | dry phase limit none_left spent =>
    subst none_left
    have hlook : u.lookAhead fuel = _ := lookAhead_of_spent spent
    have hnext : u.hasNext fuel = some (.ok false,
        { u.mark u.limit (lookPhase u.phase) with phase := .exhausted }) := by
      rw [hasNext, if_neg (by simp [phase]), limit, if_neg (by simp), hlook]
    refine ⟨_, ?_, (hasNext_of_eq hnext).looks, phase.symm⟩
    rw [hasResultsPastLimit, hbounded, limit, if_neg (by simp), if_pos (by simp), hnext]
    rfl

end Traversal

/-! ## Sources that play a list -/

section Sources

variable {σ τ : Type} [PageSource σ] [PageSource τ]

theorem Yields.exists_plays {schema : KeySchema} {n : Nat} {s : σ} {records : List Record}
    (h : Yields schema n s records) :
    ∃ outcomes, Plays s outcomes ∧ outcomes.length = n ∧ effective outcomes = (records, none) := by
  obtain ⟨pages, u, hserves, hlength, rfl⟩ := h.exists_serves
  obtain ⟨hplays, heffective⟩ := hserves.plays rfl
  exact ⟨_, hplays, by rw [List.length_map, hlength], heffective⟩

theorem Plays.of_map {f : σ → τ} (hf : Traversal.SourceMap f)
    {outcomes : List (Except PagingError Page)} {x : τ} (h : Plays x outcomes) :
    ∀ {s : σ}, f s = x → Plays s outcomes := by
  induction h with
  | done more =>
    rintro s rfl
    exact .done ((hf.hasMore s).symm.trans more)
  | next more fetch later ih =>
    rintro s rfl
    rw [hf.fetchPage, Prod.mk.injEq] at fetch
    exact .next ((hf.hasMore s).symm.trans more) (Prod.ext fetch.1 rfl) (ih fetch.2)

end Sources

end CursorPaging
