import CursorPaging.Proofs.FieldMap
import CursorPaging.Proofs.Traversal.Ending
import CursorPaging.Proofs.Traversal.Supply
import CursorPaging.Proofs.Traversal.Truncation

/-!
# What a phase says

Between two calls the phase of a walk says what is left of its limit and when its buffer is empty,
and tells with the last record handed out whether there is a key to go on after.

* `Limit.Made`: the limits that a walk is made with; `Limit.Paired`: what is left goes with what was
  asked for;
* `Said`: what a phase says about a walk, `Consistent`: the phase of a walk is right;
* `consistent_start`, **`leaves_consistent`**: every call leaves it right;
* `keyOfLast_of_contains`: the key of the last record, field by field;
* **`phases_consistent`**.
-/

namespace CursorPaging

namespace Limit

/-- A limit as a walk is made with it. -/
def Made (limit : Limit) : Prop := limit = .unbounded ∨ ∃ n, Limit.atMost n = .ok limit

/-- What is left is counted exactly if something was asked for. -/
def Paired (limit : Limit) : Prop := limit.requested.isSome = limit.remaining.isSome

variable {limit : Limit}

theorem isReached_iff : limit.isReached = true ↔ limit.remaining = some 0 := decide_eq_true_iff

theorem isReached_eq_false_iff : limit.isReached = false ↔ limit.remaining ≠ some 0 :=
  decide_eq_false_iff_not

theorem Made.open (h : limit.Made) : limit.isReached = false := by
  obtain rfl | ⟨n, hn⟩ := h
  · rfl
  · obtain ⟨hne, rfl⟩ := eq_of_atMost hn
    simpa [isReached] using hne

theorem Made.paired (h : limit.Made) : limit.Paired := by
  obtain rfl | ⟨n, hn⟩ := h
  · rfl
  · obtain ⟨-, rfl⟩ := eq_of_atMost hn
    rfl

theorem Paired.consume (h : limit.Paired) : limit.consume.Paired := by
  rw [Paired, Limit.consume, Option.isSome_map]
  exact h

end Limit

namespace Traversal

variable {σ α : Type}

/-! ## Phases -/

/-- What a phase says about a walk that started as `origin`. -/
def Said (origin t : Traversal σ α) : Phase → Prop
  | .fresh => t = origin
  | .buffering => t.limit.isReached = false
  | .lookingAhead => False
  | .exhausted => t.buffer = [] ∧ t.limit.isReached = false
  | .limitReached => t.limit.isReached = true
  | .failed => t.buffer = []

/-- The phase of a walk that started as `origin` is right, and its limit is still the one that was
asked for. -/
structure Consistent (origin t : Traversal σ α) : Prop where
  phase : Said origin t t.phase
  requested : t.limit.requested = origin.limit.requested
  paired : t.limit.Paired

variable {origin t u : Traversal σ α} {limit : Limit}

theorem consistent_start (hlimit : limit.Made) (source : σ) (codec : PositionCodec)
    (m : Record → Except PagingError α) :
    Consistent (start source limit codec m) (start source limit codec m) :=
  ⟨rfl, rfl, hlimit.paired⟩

theorem Consistent.of_limit (h : Consistent origin t) (hlimit : u.limit = t.limit)
    (hphase : Said origin u u.phase) : Consistent origin u :=
  ⟨hphase, by rw [hlimit]; exact h.requested, by rw [hlimit]; exact h.paired⟩

theorem Consistent.phase_of_reached (h : Consistent origin t)
    (hopen : origin.limit.isReached = false) (hreached : t.limit.isReached = true) :
    t.phase = .limitReached ∨ t.phase = .failed := by
  have hsaid := h.phase
  rcases hphase : t.phase with _ | _ | _ | _ | _ | _ <;> rw [hphase] at hsaid
  · -- a fresh walk is the one that it started as
    rw [Said] at hsaid
    rw [hsaid, hopen] at hreached
    cases hreached
  · exact absurd (hreached.symm.trans hsaid) (by decide)
  · exact hsaid.elim
  · exact absurd (hreached.symm.trans hsaid.2) (by decide)
  · exact .inl rfl
  · exact .inr rfl

variable [PageSource σ] {fuel : Nat} {ask : Ask} {answer : Answer α}

theorem Fetches.buffer_of_error {r : Except PagingError Bool} {e : PagingError}
    (h : Fetches fuel t r u) (hbuffer : t.buffer = []) (hr : r = .error e) : u.buffer = [] := by
  induction h with
  | failure more fetch => exact hbuffer
  | skip more fetch records continues rest ih => exact ih hbuffer hr
  | _ => cases hr

/-- Only a walk with an empty buffer fetches, so a failed fetch leaves it empty. -/
theorem LooksAhead.buffer_of_error {e : PagingError} (h : LooksAhead fuel t (.error e) u) :
    u.buffer = [] := by
  cases h with
  | past buffer phase fetches => exact fetches.buffer_of_error buffer rfl
  | ahead buffer phase fetches => exact fetches.buffer_of_error buffer rfl

/-- **Every call leaves a walk with the right phase.** -/
theorem leaves_consistent (hleaves : Leaves fuel t ask answer u) (h : Consistent origin t) :
    Consistent origin u := by
  cases hleaves with
  | same => exact h
  | reached answer alive limit => exact h.of_limit rfl limit
  | failed phase alive look =>
    refine h.of_limit look.limit ?_
    rw [look.phase_of_error]
    exact look.buffer_of_error
  | nothing answer alive limit look =>
    exact h.of_limit look.limit ⟨look.drained.buffer, look.limit ▸ limit⟩
  | found answer alive limit look => exact h.of_limit look.limit (look.limit ▸ limit)
  | @taken v record rest answer alive limit look buffer =>
    have hlimit : v.limit = t.limit := look.limit
    refine ⟨?_, ?_, ?_⟩
    · simp only [take]
      split_ifs with hreached
      · exact hreached
      · exact Bool.eq_false_iff.2 hreached
    · exact (congrArg Limit.requested hlimit).trans h.requested
    · exact Limit.Paired.consume (hlimit ▸ h.paired)
  | past answer alive limit look =>
    refine h.of_limit look.limit ?_
    rw [look.phase_past rfl]
    change _ = true
    rw [look.limit]
    exact limit

/-! ## Keys -/

/-- The key of the last record that has all key fields: these fields of it and no others. -/
theorem keyOfLast_of_contains {schema : KeySchema} {taken : List Record} {record : Record}
    (hlast : taken.getLast? = some record)
    (hfields : ∀ field ∈ schema.fields, record.fields.contains field = true) :
    ∃ key : ResumeKey, keyOfLast schema taken = .ok (some key) ∧ ∀ field,
      key.fields.get? field = if field ∈ schema.fields then record.fields.get? field else none := by
  obtain ⟨fields, hproject⟩ := FieldMap.project_of_contains hfields
  refine ⟨⟨fields⟩, ?_, FieldMap.get?_project hproject⟩
  rw [keyOfLast, hlast]
  simp only [Record.project, hproject]
  rfl

/-- **Phases are right between calls**, and agree with what is left of the limit, what is buffered
and what was asked for. The key to go on after is missing exactly if nothing was handed out or the
walk is exhausted. -/
theorem phases_consistent {limit : Limit} (hlimit : limit.Made) {source : σ} {codec : PositionCodec}
    {m : Record → Except PagingError α} {cs : List Call} {answers : List (Answer α)}
    (hcalls : calls fuel cs (start source limit codec m) = some (answers, t)) :
    ∃ taken, takenOut fuel cs (start source limit codec m) = some taken ∧
    t.phase ≠ .lookingAhead ∧
    (t.phase = .limitReached → t.limit.remaining = some 0) ∧
    (t.limit.remaining = some 0 → t.phase = .limitReached ∨ t.phase = .failed) ∧
    (t.phase = .fresh → t.source = source ∧ t.pages = 0 ∧ t.buffer = [] ∧ taken = []) ∧
    (t.phase = .exhausted → t.buffer = [] ∧ t.limit.remaining ≠ some 0) ∧
    (t.phase = .failed → t.buffer = []) ∧
    t.limit.requested = limit.requested ∧
    (t.limit.requested.isSome = true ↔ t.limit.remaining.isSome = true) ∧
    ∀ schema, PageSource.keySchema t.source = .ok schema →
      (∀ record ∈ taken, ∀ field ∈ schema.fields, record.fields.contains field = true) →
      (t.resumeKey false = .ok none ↔ taken = [] ∨ t.phase = .exhausted) ∧
      ∀ record, taken.getLast? = some record → t.phase ≠ .exhausted →
        ∃ key : ResumeKey, t.resumeKey false = .ok (some key) ∧ ∀ field, key.fields.get? field =
          if field ∈ schema.fields then record.fields.get? field else none := by
  obtain ⟨taken, fetched, htaken, hconserved⟩ := conserved_of_calls hcalls
  have h : Consistent (start source limit codec m) t :=
    calls_keeps_left leaves_consistent hcalls (consistent_start hlimit source codec m)
  have hsaid {phase : Phase} (hphase : t.phase = phase) :
      Said (start source limit codec m) t phase := hphase ▸ h.phase
  have hnone : t.lastExamined = none ↔ taken = [] := by
    rw [hconserved.lastExamined, List.getLast?_eq_none_iff]
  have hkey {schema : KeySchema} {record : Record}
      (hschema : PageSource.keySchema t.source = .ok schema)
      (hfields : ∀ record ∈ taken, ∀ field ∈ schema.fields, record.fields.contains field = true)
      (hlast : taken.getLast? = some record) (hphase : t.phase ≠ .exhausted) :
      ∃ key : ResumeKey, t.resumeKey false = .ok (some key) ∧ ∀ field, key.fields.get? field =
        if field ∈ schema.fields then record.fields.get? field else none := by
    rw [resumeKey_of_last hphase hconserved.lastExamined hschema]
    exact keyOfLast_of_contains hlast (hfields record (List.mem_of_getLast? hlast))
  refine ⟨taken, htaken, fun hphase => hsaid hphase,
    fun hphase => Limit.isReached_iff.1 (hsaid hphase),
    fun hreached => h.phase_of_reached hlimit.open (Limit.isReached_iff.2 hreached),
    fun hphase => ?_, fun hphase => (hsaid hphase).imp_right Limit.isReached_eq_false_iff.1,
    fun hphase => hsaid hphase, h.requested, Bool.eq_iff_iff.1 h.paired,
    fun schema hschema hfields => ⟨⟨fun hmissing => ?_, fun hend => ?_⟩,
      fun record hlast hphase => hkey hschema hfields hlast hphase⟩⟩
  · have hstart : t = start source limit codec m := hsaid hphase
    exact ⟨by rw [hstart]; rfl, by rw [hstart]; rfl, by rw [hstart]; rfl,
      hnone.1 (by rw [hstart]; rfl)⟩
  · -- a record handed out would give a key
    by_contra hend
    obtain ⟨hsome, hphase⟩ := not_or.1 hend
    obtain ⟨record, hlast⟩ := Option.ne_none_iff_exists'.1 (mt List.getLast?_eq_none_iff.1 hsome)
    obtain ⟨key, hfound, -⟩ := hkey hschema hfields hlast hphase
    rw [hmissing] at hfound
    cases hfound
  · have hcurrent : t.currentKey schema = .ok none := by
      obtain hempty | hphase := hend
      · rw [currentKey, hnone.2 hempty]
        split_ifs <;> rfl
      · rw [currentKey, if_pos hphase]
    rw [resumeKey, hschema]
    exact hcurrent

/-- The look past the limit buffers another record: the key is still that of the first. -/
theorem phases_consistent_past_limit :
    let record (name : String) : Record := ⟨.ofList [("id", .text name), ("n", .number "1")]⟩
    let source : Keyed Script :=
      ⟨⟨[.ok ⟨[record "a"], .done⟩, .ok ⟨[record "b"], .done⟩], .rangeQuery⟩, [⟨"id", none⟩]⟩
    let cs : List Call := [.ask .nextItem, .ask .hasResultsPastLimit]
    ∃ answers t key, calls 1 cs (start source ⟨some 1, some 1⟩ .default .ok) = some (answers, t) ∧
      t.phase = .limitReached ∧ t.buffer = [record "b"] ∧ t.limit.remaining = some 0 ∧
      t.resumeKey false = .ok (some key) ∧
      key.fields.get? "id" = some (.text "a") ∧ key.fields.get? "n" = none := by
  intro record source cs
  have hend : (calls 1 cs (start source ⟨some 1, some 1⟩ .default .ok)).map (fun r =>
      (r.2.phase, r.2.buffer, r.2.source.schemas)) =
        some (.limitReached, [record "b"], [⟨"id", none⟩]) := by decide +kernel
  obtain ⟨⟨answers, t⟩, hrun, ht⟩ := Option.map_eq_some_iff.1 hend
  obtain ⟨hphase, hrest⟩ := Prod.mk.inj ht
  obtain ⟨hbuffer, hschemas⟩ := Prod.mk.inj hrest
  have hschema : PageSource.keySchema t.source = .ok ⟨"id", none⟩ := by
    change t.source.keySchema = _
    rw [Keyed.keySchema, hschemas]
  obtain ⟨taken, htaken, -, hreached, -, -, -, -, -, -, hkey⟩ :=
    phases_consistent (.inr ⟨1, rfl⟩) hrun
  have htaken' : takenOut 1 cs (start source ⟨some 1, some 1⟩ .default .ok) =
      some [record "a"] := by decide +kernel
  obtain rfl : [record "a"] = taken := Option.some.inj (htaken'.symm.trans htaken)
  obtain ⟨key, hresume, hget⟩ := (hkey _ hschema (by decide +kernel)).2 (record "a") rfl
    (by rw [hphase]; decide)
  exact ⟨answers, t, key, hrun, hphase, hbuffer, hreached hphase, hresume, hget "id", hget "n"⟩

end Traversal

end CursorPaging
