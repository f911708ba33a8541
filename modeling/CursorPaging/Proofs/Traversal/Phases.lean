import CursorPaging.Proofs.Traversal.Mark

/-!
# What a call makes of a walk

Every call that may fetch leaves a walk in one of a few ways. What a walk keeps from call to call,
its phase above all, is read off them.

* `Ask.failure`: the answer to a call whose fetch fails;
* **`Leaves`**, **`leaves_of_eq`**: the ways in which a call leaves a walk;
* `calls_keeps_left`: what all of these ways keep is kept by calls;
* `Fetches.phase_eq`, `LooksAhead.phase_of_error`, `LooksAhead.phase_past`: the phase after a look;
* `standing`, **`calls_of_standing`**: a walk that no call changes.
-/

namespace CursorPaging

/-- The answer to a call whose fetch fails. -/
def Ask.failure {α : Type} (e : PagingError) : Ask → Answer α
  | .hasNext => .found (.error e)
  | .nextItem => .item (.error e)
  | .next => .pulled (some (.error e))
  | .hasResultsPastLimit => .found (.error e)

namespace Traversal

variable {σ α : Type} [PageSource σ] {fuel : Nat} {t u : Traversal σ α} {ask : Ask}
  {answer : Answer α} {e : PagingError} {record : Record} {rest : List Record}

/-- How a call that may fetch leaves a walk. -/
inductive Leaves (fuel : Nat) (t : Traversal σ α) (ask : Ask) :
    Answer α → Traversal σ α → Prop
  /-- As it was: there was no need to look. -/
  | same (answer : Answer α) : Leaves fuel t ask answer t
  | reached (answer : Answer α) (alive : t.phase ≠ .failed) (limit : t.limit.isReached = true) :
      Leaves fuel t ask answer { t with phase := .limitReached }
  | failed {e : PagingError} {u : Traversal σ α} (phase : Phase) (alive : t.phase ≠ .failed)
      (look : LooksAhead fuel { t with phase } (.error e) u) :
      Leaves fuel t ask (ask.failure e) u
  | nothing {u : Traversal σ α} (answer : Answer α) (alive : t.phase ≠ .failed)
      (limit : t.limit.isReached = false) (look : LooksAhead fuel t (.ok false) u) :
      Leaves fuel t ask answer { u with phase := .exhausted }
  | found {u : Traversal σ α} (answer : Answer α) (alive : t.phase ≠ .failed)
      (limit : t.limit.isReached = false) (look : LooksAhead fuel t (.ok true) u) :
      Leaves fuel t ask answer { u with phase := .buffering }
  /-- With one record less, which was handed out. -/
  | taken {u : Traversal σ α} {record : Record} {rest : List Record} (answer : Answer α)
      (alive : t.phase ≠ .failed) (limit : t.limit.isReached = false)
      (look : LooksAhead fuel t (.ok true) u) (buffer : u.buffer = record :: rest) :
      Leaves fuel t ask answer (({ u with phase := .buffering } : Traversal σ α).take record rest)
  /-- After a look past its limit. -/
  | past {u : Traversal σ α} {found : Bool} (answer : Answer α) (alive : t.phase ≠ .failed)
      (limit : t.limit.isReached = true)
      (look : LooksAhead fuel { t with phase := .limitReached } (.ok found) u) :
      Leaves fuel t ask answer u

/-! ## Every call leaves a walk in one of these ways -/

theorem HasNext.leaves_failed (ask : Ask) (h : HasNext fuel t (.error e) u) :
    Leaves fuel t ask (ask.failure e) u := by
  cases h with
  | failed => exact .same _
  | failure alive limit look => exact .failed t.phase alive look

theorem HasNext.leaves_nothing (ask : Ask) (answer : Answer α) (h : HasNext fuel t (.ok false) u) :
    Leaves fuel t ask answer u := by
  cases h with
  | reached alive limit => exact .reached answer alive limit
  | nothing alive limit look => exact .nothing answer alive limit look

theorem HasNext.leaves_found (ask : Ask) (answer : Answer α) (h : HasNext fuel t (.ok true) u) :
    Leaves fuel t ask answer u := by
  cases h with
  | found alive limit look => exact .found answer alive limit look

theorem HasNext.leaves_taken (ask : Ask) (answer : Answer α) (h : HasNext fuel t (.ok true) u)
    (hbuffer : u.buffer = record :: rest) : Leaves fuel t ask answer (u.take record rest) := by
  cases h with
  | found alive limit look => exact .taken answer alive limit look hbuffer

theorem HasNext.leaves {r : Except PagingError Bool} (h : HasNext fuel t r u)
    (hanswer : ∀ e, r = .error e → answer = ask.failure e) : Leaves fuel t ask answer u := by
  rcases r with e | _ | _
  · rw [hanswer e rfl]
    exact h.leaves_failed ask
  · exact h.leaves_nothing ask answer
  · exact h.leaves_found ask answer

/-- **A call leaves a walk in one of these ways.** -/
theorem leaves_of_eq (h : t.ask fuel ask = some (answer, u)) : Leaves fuel t ask answer u := by
  cases asked_of_eq h with
  | hasNext run => exact run.leaves fun e he => by rw [he]; rfl
  | nextItem run =>
    cases run with
    | reached => exact .same _
    | failure limit next => exact next.leaves_failed .nextItem
    | nothing limit next => exact next.leaves_nothing .nextItem _
    | taken next buffer => exact next.leaves_taken .nextItem _ buffer
  | next run =>
    cases run with
    | failed => exact .same _
    | failure alive next => exact next.leaves_failed .next
    | nothing next => exact next.leaves_nothing .next _
    | taken next buffer => exact next.leaves_taken .next _ buffer
  | @hasResultsPastLimit r _ run =>
    cases run with
    | unbounded => exact .same _
    | within bounded limit next => exact next.leaves fun e he => by rw [he]; rfl
    | failed => exact .same _
    | past bounded limit alive look =>
      cases r with
      | error e => exact .failed .limitReached alive look
      | ok found => exact .past _ alive limit look

/-- **What a call keeps, in whichever way it leaves a walk, is kept by calls.** -/
theorem calls_keeps_left {P : Traversal σ α → Prop}
    (hleaves : ∀ {t u : Traversal σ α} {ask : Ask} {answer : Answer α},
      Leaves fuel t ask answer u → P t → P u)
    {cs : List Call} {answers : List (Answer α)} (h : calls fuel cs t = some (answers, u))
    (ht : P t) : P u :=
  calls_keeps_asked (fun hask => hleaves (leaves_of_eq hask)) h ht

/-! ## Phases -/

theorem Fetches.phase_eq {r : Except PagingError Bool} (h : Fetches fuel t r u) :
    u.phase = endPhase t.phase r := by
  induction h with
  | skip more fetch records continues rest ih => exact ih
  | _ => rfl

theorem LooksAhead.phase_of_error (h : LooksAhead fuel t (.error e) u) : u.phase = .failed := by
  cases h with
  | past buffer phase fetches => exact fetches.phase_eq
  | ahead buffer phase fetches => exact fetches.phase_eq

theorem LooksAhead.phase_past {r : Except PagingError Bool} (h : LooksAhead fuel t r u)
    (hphase : t.phase = .limitReached) : u.phase = endPhase .limitReached r := by
  cases h with
  | buffered => exact hphase
  | past buffer phase fetches => rw [fetches.phase_eq, hphase]
  | ahead buffer phase fetches => exact absurd hphase phase

/-! ## Walks that stay as they are -/

/-- The answers of a walk that stays as it is: what it says to calls that may fetch, and its
position. -/
def standing (f : Ask → Answer α) (t : Traversal σ α) : Call → Answer α
  | .ask ask => f ask
  | .resumeKey removeHashKey => .key (t.resumeKey removeHashKey)
  | .position removeHashKey => .token (t.encodePosition removeHashKey)

/-- **A walk that no call that may fetch changes** stays as it is under all calls. -/
theorem calls_of_standing {f : Ask → Answer α} (h : ∀ ask, t.ask fuel ask = some (f ask, t)) :
    ∀ cs : List Call, calls fuel cs t = some (cs.map (t.standing f), t)
  | [] => rfl
  | c :: rest => by
    have hcall : t.call fuel c = some (t.standing f c, t) := by
      cases c with
      | ask ask => exact h ask
      | resumeKey removeHashKey => rfl
      | position removeHashKey => rfl
    rw [calls, hcall]
    simp only [calls_of_standing h rest]
    rfl

end Traversal

end CursorPaging
