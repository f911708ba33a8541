import Mathlib.Data.List.TakeWhile
import CursorPaging.Proofs.Pager
import CursorPaging.Proofs.Source.Continuation

/-!
# Configuration is atomic and freezes

Setting a position goes through the freeze, the kind of the source, the token, and what the source
makes of the key. Wherever it fails, nothing has changed. So the calls that fail can be struck out,
and of the others before the first walk the last limit and the last position count.

* `Pager.answer`: the answer to a call, with the pager as it is afterwards; `Pager.accepted`: the
  calls that succeed;
* `Setting.limit?`, `Setting.startKey?`: what a call sets; `Pager.settledLimit`, `settledSource`:
  what the last calls set;
* `Positioning`: a source takes a start key in one way, or refuses it and is left as it is;
  `Answered`, **`Pager.answered`**: what a call can do then;
* `Pager.applyAll_of_started`, `Pager.applyAll_settled`: any calls after the first walk, and before
  it;
* `Configuring`, **`configuration_freezes`**.
-/

namespace CursorPaging

section Calls

variable {σ α : Type} [PageSource σ]

/-- The answer to a call, with the pager as it is afterwards. -/
def Pager.answer (p : Pager σ α) : Setting → Except PagingError Unit × Pager σ α
  | .position token => p.setPosition token
  | .positionWithHashKey token hash => p.setPositionWithHashKey token hash
  | .limit n => p.setLimit n
  | .iterate => (.ok (), p.iterate.2)

theorem Pager.apply_eq_answer (p : Pager σ α) (call : Setting) :
    p.apply call = (p.answer call).2 := by
  cases call <;> rfl

/-- The calls that succeed, in order. -/
def Pager.accepted (p : Pager σ α) : List Setting → List Setting
  | [] => []
  | call :: rest =>
    match p.answer call with
    | (.ok _, q) => call :: q.accepted rest
    | (.error _, q) => q.accepted rest

/-- How a call comes too late. -/
def Setting.misuse : Setting → Misuse
  | .limit _ => .limitAfterStart
  | _ => .positionAfterStart

/-- The limit that a call sets. -/
def Setting.limit? : Setting → Option Nat
  | .limit n => some n
  | _ => none

/-- The key that a call goes on after. -/
def Setting.startKey? (source : σ) (codec : PositionCodec) : Setting → Option ResumeKey
  | .position token => (codec.decode token).toOption
  | .positionWithHashKey token hash =>
    match PageSource.hashKeyField source, codec.decode token with
    | .ok field, .ok key => some ⟨key.fields.insert field hash⟩
    | _, _ => none
  | _ => none

/-- The limit of the last call that sets one. -/
def settledLimit (limit : Limit) (calls : List Setting) : Limit :=
  (calls.filterMap Setting.limit?).getLast?.elim limit fun n => ⟨some n, some n⟩

/-- A source that goes on after the key of the last call that has one. -/
def settledSource (after : σ → ResumeKey → σ) (source : σ) (codec : PositionCodec)
    (calls : List Setting) : σ :=
  (calls.filterMap (Setting.startKey? source codec)).getLast?.elim source (after source)

/-! ## What a call can do -/

/-- A source takes a start key as `after` has it, or refuses it and is left as it is. The last key
counts, and none changes what kind of source it is. -/
structure Positioning (after : σ → ResumeKey → σ) : Prop where
  setStart : ∀ s key, PageSource.setStart s key = (.ok (), after s key) ∨
    ∃ e, PageSource.setStart s key = (.error e, s)
  last : ∀ s first key, after (after s first) key = after s key
  hashKeyField : ∀ s key, PageSource.hashKeyField (after s key) = PageSource.hashKeyField s

/-- What a call can do to a pager. -/
inductive Answered (after : σ → ResumeKey → σ) (p : Pager σ α) :
    Setting → Except PagingError Unit × Pager σ α → Prop
  | late {call : Setting} (started : p.started = true) :
      Answered after p call (.error (.misuse call.misuse), p)
  | refused {call : Setting} (fresh : p.started = false) (e : PagingError) :
      Answered after p call (.error e, p)
  | position {call : Setting} (fresh : p.started = false) (key : ResumeKey)
      (reads : call.startKey? p.source p.codec = some key) :
      Answered after p call (.ok (), { p with source := after p.source key })
  | limit (fresh : p.started = false) {n : Nat} (positive : n ≠ 0) :
      Answered after p (.limit n) (.ok (), { p with limit := ⟨some n, some n⟩ })
  | iterate : Answered after p .iterate (.ok (), { p with started := true })

variable {after : σ → ResumeKey → σ}

theorem Positioning.answered_setStart (hafter : Positioning after) {p : Pager σ α} {call : Setting}
    {key : ResumeKey} (hfresh : p.started = false)
    (hkey : call.startKey? p.source p.codec = some key) :
    Answered after p call (p.setStart key) := by
  rcases hafter.setStart p.source key with hset | ⟨e, hset⟩
  · have hstart : p.setStart key = (.ok (), { p with source := after p.source key }) := by
      rw [Pager.setStart, hset]
    rw [hstart]
    exact .position hfresh key hkey
  · rw [Pager.setStart_of_refused hset]
    exact .refused hfresh e

/-- **What a call can do**, whatever its argument. -/
theorem Pager.answered (hafter : Positioning after) (p : Pager σ α) (call : Setting) :
    Answered after p call (p.answer call) := by
  by_cases hstarted : p.started = true
  · cases call with
    | iterate => exact .iterate
    | position token =>
      simp only [answer, setPosition, hstarted, if_true]
      exact .late hstarted
    | positionWithHashKey token hash =>
      simp only [answer, setPositionWithHashKey, hstarted, if_true]
      exact .late hstarted
    | limit n =>
      simp only [answer, setLimit, hstarted, if_true]
      exact .late hstarted
  · have hfresh : p.started = false := Bool.eq_false_iff.2 hstarted
    cases call with
    | iterate => exact .iterate
    | position token =>
      rw [answer, setPosition, if_neg hstarted]
      split
      · exact .refused hfresh _
      · split
        · exact .refused hfresh _
        · rename_i key hdecode
          exact hafter.answered_setStart hfresh (by rw [Setting.startKey?, hdecode]; rfl)
    | positionWithHashKey token hash =>
      simp only [answer, setPositionWithHashKey]
      rw [if_neg hstarted]
      split_ifs
      · exact .refused hfresh _
      · split
        · exact .refused hfresh _
        · split
          · exact .refused hfresh _
          · rename_i field hfield _ key hdecode
            exact hafter.answered_setStart hfresh (by rw [Setting.startKey?, hfield, hdecode])
    | limit n =>
      rw [answer, setLimit, if_neg hstarted, Limit.atMost]
      split_ifs with hn
      · exact .refused hfresh _
      · exact .limit hfresh hn

/-! ## Any calls -/

theorem Pager.applyAll_of_started (hafter : Positioning after) {p : Pager σ α}
    (hstarted : p.started = true) (calls : List Setting) : p.applyAll calls = p := by
  induction calls with
  | nil => rfl
  | cons call rest ih =>
    have hsame : p.apply call = p := by
      have hanswered := p.answered hafter call
      rw [apply_eq_answer]
      generalize p.answer call = answer at hanswered
      cases hanswered with
      | late | refused => rfl
      | position fresh | limit fresh => exact absurd hstarted (by rw [fresh]; decide)
      | iterate => rw [← hstarted]
    change (p.apply call).applyAll rest = p
    rw [hsame, ih]

theorem elim_getLast?_cons {γ δ : Type} (first : γ) (rest : List γ) (none : δ) (some : γ → δ) :
    (first :: rest).getLast?.elim none some = rest.getLast?.elim (some first) some := by
  rw [List.getLast?_cons]
  cases rest.getLast? <;> rfl

theorem Positioning.startKey? (hafter : Positioning after) (s : σ) (key : ResumeKey)
    (codec : PositionCodec) :
    Setting.startKey? (after s key) codec = Setting.startKey? s codec := by
  funext call
  cases call with
  | positionWithHashKey => rw [Setting.startKey?, hafter.hashKeyField, Setting.startKey?]
  | _ => rfl

/-- Before its first walk a pager has what the last calls set that succeeded. -/
theorem Pager.applyAll_settled (hafter : Positioning after) {p : Pager σ α}
    (hfresh : p.started = false) {calls : List Setting} (hcalls : .iterate ∉ calls) :
    p.applyAll calls =
      { p with
        source := settledSource after p.source p.codec (p.accepted calls)
        limit := settledLimit p.limit (p.accepted calls) } := by
  induction calls generalizing p with
  | nil => rfl
  | cons call rest ih =>
    obtain ⟨hcall, hrest⟩ := not_or.1 (List.mem_cons.not.1 hcalls)
    change (p.apply call).applyAll rest = _
    have hanswered := p.answered hafter call
    rw [apply_eq_answer, accepted]
    generalize p.answer call = answer at hanswered ⊢
    cases hanswered with
    | late started => exact absurd started (by rw [hfresh]; decide)
    | refused => exact ih hfresh hrest
    | position fresh key reads =>
      have hlimit : call.limit? = none := by cases call <;> first | rfl | cases reads
      rw [ih (p := { p with source := after p.source key }) fresh hrest]
      simp only [settledSource, settledLimit, List.filterMap_cons, reads, hlimit,
        elim_getLast?_cons, hafter.startKey?, funext (hafter.last p.source key)]
    | @limit _ n =>
      rw [ih (p := { p with limit := ⟨some n, some n⟩ }) hfresh hrest]
      simp only [settledSource, settledLimit, List.filterMap_cons, Setting.limit?,
        Setting.startKey?,
        elim_getLast?_cons]
    | iterate => exact absurd rfl hcall

theorem Pager.started_applyAll (hafter : Positioning after) {p : Pager σ α} {calls : List Setting}
    (hcalls : .iterate ∈ calls) : (p.applyAll calls).started = true := by
  obtain ⟨before, later, rfl⟩ := List.append_of_mem hcalls
  rw [applyAll, List.foldl_append, List.foldl_cons]
  exact (congrArg Pager.started (applyAll_of_started hafter rfl later)).trans rfl

end Calls

/-! ## The rules -/

section Rules

variable {σ α : Type} [PageSource σ]

/-- What setting up a pager keeps to, whatever calls came before. -/
structure Configuring (after : σ → ResumeKey → σ) (source : σ) (codec : PositionCodec)
    (m : Record → Except PagingError α) : Prop where
  /-- A call that fails changes nothing. -/
  atomic : ∀ before call e q,
    ((Pager.make source codec m).applyAll before).answer call = (.error e, q) →
      q = (Pager.make source codec m).applyAll before
  /-- A limit changes the limit only. -/
  limit : ∀ before n q,
    ((Pager.make source codec m).applyAll before).answer (.limit n) = (.ok (), q) →
      n ≠ 0 ∧ q = { (Pager.make source codec m).applyAll before with limit := ⟨some n, some n⟩ }
  /-- A position changes the start key only. -/
  position : ∀ before call q, call ≠ .iterate → call.limit? = none →
    ((Pager.make source codec m).applyAll before).answer call = (.ok (), q) →
      ∃ key, call.startKey? source codec = some key ∧
        q = { (Pager.make source codec m).applyAll before with
              source := after ((Pager.make source codec m).applyAll before).source key }
  /-- After the first walk every other call comes too late, whatever its argument. -/
  frozen : ∀ before call, .iterate ∈ before → call ≠ .iterate →
    ((Pager.make source codec m).applyAll before).answer call =
      (.error (.misuse call.misuse), (Pager.make source codec m).applyAll before)
  /-- Every walk starts from what the last calls set that succeeded before the first one. -/
  starts : ∀ before settled,
    settled = (Pager.make source codec m).accepted (before.takeWhile (· ≠ .iterate)) →
      ((Pager.make source codec m).applyAll before).iterate.1 =
        Traversal.start (settledSource after source codec settled) (settledLimit .unbounded settled)
          codec m

variable {after : σ → ResumeKey → σ}

theorem Pager.startKey?_applyAll (hafter : Positioning after) (p : Pager σ α)
    (calls : List Setting) :
    Setting.startKey? (p.applyAll calls).source p.codec = Setting.startKey? p.source p.codec := by
  refine applyAll_keeps (I := fun s => Setting.startKey? s p.codec = _)
    (fun {s} key hs => ?_) calls rfl
  rcases hafter.setStart s key with hset | ⟨e, hset⟩
  · rw [hset]
    exact (hafter.startKey? s key p.codec).trans hs
  · rw [hset]
    exact hs

/-- The part of the calls from the first walk on changes nothing that a walk starts from. -/
theorem Pager.traversal_applyAll (hafter : Positioning after) (p : Pager σ α)
    (calls : List Setting) :
    (p.applyAll calls).traversal = (p.applyAll (calls.takeWhile (· ≠ .iterate))).traversal := by
  generalize hconfigured : calls.takeWhile (· ≠ .iterate) = configured
  have hcalls := List.takeWhile_append_dropWhile (p := (· ≠ Setting.iterate)) (l := calls)
  rw [hconfigured] at hcalls
  cases hwalks : calls.dropWhile (· ≠ .iterate) with
  | nil => rw [← hcalls, hwalks, List.append_nil]
  | cons call later =>
    have hcall : call = .iterate := by
      have hhead := List.head?_dropWhile_not (· ≠ Setting.iterate) calls
      rw [hwalks] at hhead
      simpa using hhead
    rw [← hcalls, hwalks, hcall, applyAll, List.foldl_append, List.foldl_cons]
    have hwalked : ((p.applyAll configured).apply .iterate).applyAll later =
        (p.applyAll configured).apply .iterate := applyAll_of_started hafter rfl later
    exact (congrArg traversal hwalked).trans rfl

theorem Positioning.configuring (hafter : Positioning after) (source : σ) (codec : PositionCodec)
    (m : Record → Except PagingError α) : Configuring after source codec m where
  atomic before call e q h := by
    have hanswered := ((Pager.make source codec m).applyAll before).answered hafter call
    rw [h] at hanswered
    cases hanswered <;> rfl
  limit before n q h := by
    have hanswered := ((Pager.make source codec m).applyAll before).answered hafter (.limit n)
    rw [h] at hanswered
    cases hanswered with
    | position fresh key reads => cases reads
    | limit fresh positive => exact ⟨positive, rfl⟩
  position before call q hcall hlimit h := by
    have hanswered := ((Pager.make source codec m).applyAll before).answered hafter call
    rw [h] at hanswered
    cases hanswered with
    | position fresh key reads =>
      rw [Pager.applyAll_codec, Pager.startKey?_applyAll hafter] at reads
      exact ⟨key, reads, rfl⟩
    | limit => cases hlimit
    | iterate => exact absurd rfl hcall
  frozen before call hbefore hcall := by
    have hstarted := Pager.started_applyAll (p := Pager.make source codec m) hafter hbefore
    have hanswered := ((Pager.make source codec m).applyAll before).answered hafter call
    generalize ((Pager.make source codec m).applyAll before).answer call = answer at hanswered ⊢
    cases hanswered with
    | late => rfl
    | refused fresh | position fresh | limit fresh => rw [hstarted] at fresh; cases fresh
    | iterate => exact absurd rfl hcall
  starts before settled hsettled := by
    have hnone : Setting.iterate ∉ before.takeWhile (· ≠ .iterate) := fun hmem => by
      simpa using List.mem_takeWhile_imp hmem
    change ((Pager.make source codec m).applyAll before).traversal = _
    rw [Pager.traversal_applyAll hafter, Pager.applyAll_settled hafter rfl hnone, hsettled]
    rfl

end Rules

section Sources

variable {β : Type}

/-- A query that goes on after a key. -/
def QuerySource.startingAfter (s : QuerySource β) (key : ResumeKey) : QuerySource β :=
  { s with cursor := { s.cursor with startKey := some key } }

/-- A scan that goes on after a key. -/
def ScanSource.startingAfter (s : ScanSource β) (key : ResumeKey) : ScanSource β :=
  { s with cursor := { s.cursor with startKey := some key } }

theorem QuerySource.positioning [QueryStore β] :
    Positioning (startingAfter : QuerySource β → ResumeKey → QuerySource β) where
  setStart := setStart_cases
  last _ _ _ := rfl
  hashKeyField _ _ := rfl

theorem ScanSource.positioning [ScanStore β] :
    Positioning (startingAfter : ScanSource β → ResumeKey → ScanSource β) where
  setStart := setStart_cases
  last _ _ _ := rfl
  hashKeyField _ _ := rfl

theorem BatchSource.positioning [BatchStore β] :
    Positioning fun (s : BatchSource β) (_ : ResumeKey) => s where
  setStart _ _ := .inr ⟨_, rfl⟩
  last _ _ _ := rfl
  hashKeyField _ _ := rfl

/-- **Configuration is atomic and freezes**, for every kind of source over any store. -/
theorem configuration_freezes {β α : Type} (codec : PositionCodec)
    (m : Record → Except PagingError α) :
    (∀ [QueryStore β] (source : QuerySource β),
      Configuring QuerySource.startingAfter source codec m) ∧
    (∀ [ScanStore β] (source : ScanSource β),
      Configuring ScanSource.startingAfter source codec m) ∧
    (∀ [BatchStore β] (source : BatchSource β), Configuring (fun s _ => s) source codec m) :=
  ⟨fun source => QuerySource.positioning.configuring source codec m,
    fun source => ScanSource.positioning.configuring source codec m,
    fun source => BatchSource.positioning.configuring source codec m⟩

end Sources

end CursorPaging
