import CursorPaging.Pager
import CursorPaging.Proofs.Position
import CursorPaging.Proofs.Table.Source

/-!
# Fresh walks

A request can be walked again at any time by a fresh pager, from the start or from a token that an
earlier walk gave out.

* `Pager.resume`, `Pager.cap`, `openWalk`: a pager with a token and a limit, and its walk;
* `ResumesAt`: a token and the location that its key names;
* **`exists_openWalk`**: such a token is taken, and the walk goes on after the location;
* `accepted_of_openWalk`: what is refused.
-/

namespace CursorPaging

variable {σ α β : Type}

/-- The limit of a walk, if it has one. -/
def Limit.upTo (limit : Option Nat) : Limit := ⟨limit, limit⟩

/-- A pager that goes on after a token, if there is one. -/
def Pager.resume [PageSource σ] (p : Pager σ α) : Option String → Except PagingError (Pager σ α)
  | none => .ok p
  | some token => (p.setPosition token).1.map fun _ => (p.setPosition token).2

/-- A pager with a limit, if there is one. -/
def Pager.cap (p : Pager σ α) : Option Nat → Except PagingError (Pager σ α)
  | none => .ok p
  | some limit => (p.setLimit limit).1.map fun _ => (p.setLimit limit).2

/-- The walk of a fresh pager over a request. -/
def openWalk [WalkStore β] (store : β) (r : Request) (codec : PositionCodec)
    (m : Record → Except PagingError α) (limit : Option Nat) (token : Option String) :
    Except PagingError (Traversal (WalkSource β) α) :=
  match WalkSource.make store r with
  | .error e => .error e
  | .ok source =>
    match (Pager.make source codec m).resume token with
    | .error e => .error e
    | .ok pager => (pager.cap limit).map (·.iterate.1)

/-- A token, if there is one, and the location that its key names. -/
inductive ResumesAt (codec : PositionCodec) (r : Request) (schema : KeySchema) :
    Option String → Option Location → Prop
  | none : ResumesAt codec r schema none none
  | some {token : String} {key : ResumeKey} {loc : Location}
    (decoded : codec.decode token = .ok key)
      (located : schema.Locates key.fields loc) (owns : r.Owns loc) :
      ResumesAt codec r schema (some token) (some loc)

theorem ResumesAt.withPageSize {codec : PositionCodec} {r : Request} {schema : KeySchema}
    {token : Option String} {start : Option Location} (h : ResumesAt codec r schema token start)
    (pageSize : Option Nat) : ResumesAt codec (r.withPageSize pageSize) schema token start := by
  cases h with
  | none => exact .none
  | some decoded located owns =>
    exact .some decoded located ((Request.owns_withPageSize pageSize).2 owns)

theorem ResumesAt.sound {codec : PositionCodec} {r : Request} {schema : KeySchema}
    {token : Option String} {start : Option Location} {loc : Location}
    (h : ResumesAt codec r schema token start) (hloc : start = .some loc) : loc.Sound := by
  cases h with
  | none => cases hloc
  | some decoded located owns =>
    cases hloc
    exact located.sound

theorem cap_eq {p : Pager σ α} {limit : Option Nat} (hstarted : p.started = false)
    (hlimit : limit ≠ some 0) (hfree : p.limit = .unbounded) :
    p.cap limit = .ok { p with limit := .upTo limit } := by
  cases limit with
  | none =>
    rw [Pager.cap, show Limit.upTo none = p.limit from hfree.symm]
  | some n =>
    have hn : n ≠ 0 := fun h => hlimit (congrArg some h)
    simp only [Pager.cap, Pager.setLimit, hstarted, Limit.atMost, if_neg hn]
    rfl

/-- **A fresh walk is opened** from the start and from every token of a location of the request. -/
theorem exists_openWalk [WalkStore β] {store : β} {r : Request} {schema : KeySchema}
    {codec : PositionCodec} {limit : Option Nat} {token : Option String} {start : Option Location}
    (m : Record → Except PagingError α) (hschema : Store.keySchema store r.table = .ok schema)
    (hlimit : limit ≠ some 0) (htoken : ResumesAt codec r schema token start) :
    ∃ s key, openWalk store r codec m limit token =
        .ok (Traversal.start s (.upTo limit) codec m) ∧
      s.store = store ∧ s.request = r ∧ s.cursor = ⟨schema, key, false⟩ ∧
      r.StartsAt schema key start := by
  obtain ⟨s, hmake, hstore, hrequest, hcursor⟩ := WalkSource.make_of_keySchema hschema
  rw [openWalk, hmake]
  cases htoken with
  | none =>
    refine ⟨s, none, ?_, hstore, hrequest, hcursor, .none⟩
    simp only [Pager.resume, cap_eq (p := Pager.make s codec m) rfl hlimit rfl]
    rfl
  | @some token key loc decoded located owns =>
    have hset : PageSource.setStart s key = (.ok (), s.put store ⟨schema, some key, false⟩) := by
      rw [WalkSource.setStart_of_locates (by rw [hcursor]; exact located)
        (by rw [hrequest]; exact owns), hstore, hcursor]
      rfl
    have hposition : (Pager.make s codec m).setPosition token =
        (.ok (), Pager.make (s.put store ⟨schema, some key, false⟩) codec m) := by
      rw [Pager.setPosition, if_neg (by simp [Pager.make]),
        show PageSource.keySchema (Pager.make s codec m).source = _ from WalkSource.keySchema_eq s]
      simp only [show (Pager.make s codec m).codec.decode token = _ from decoded, Pager.setStart]
      rw [show PageSource.setStart (Pager.make s codec m).source key = _ from hset]
      rfl
    have hresume : (Pager.make s codec m).resume (some token) =
        .ok (Pager.make (s.put store ⟨schema, some key, false⟩) codec m) := by
      rw [Pager.resume, hposition]
      rfl
    refine ⟨s.put store ⟨schema, some key, false⟩, some key, ?_, WalkSource.store_put _ _ _,
      (WalkSource.request_put _ _ _).trans hrequest, WalkSource.cursor_put _ _ _,
      .some located owns⟩
    simp only [hresume, cap_eq (p := Pager.make _ codec m) rfl hlimit rfl]
    rfl

theorem accepted_of_openWalk [WalkStore β] {store : β} {r : Request} {codec : PositionCodec}
    {m : Record → Except PagingError α} {limit : Option Nat} {token : String}
    {walk : Traversal (WalkSource β) α}
    (h : openWalk store r codec m limit (some token) = .ok walk) :
    Utf8.size token ≤ codec.maxTokenLength ∧ limit ≠ some 0 := by
  rw [openWalk] at h
  rcases hmake : WalkSource.make store r with e | source
  · simp only [hmake] at h
    cases h
  · simp only [hmake] at h
    rcases hresume : (Pager.make source codec m).resume (some token) with e | pager
    · simp only [hresume] at h
      cases h
    · simp only [hresume] at h
      constructor
      · rw [Pager.resume, Pager.setPosition, if_neg (by simp [Pager.make]),
          show PageSource.keySchema (Pager.make source codec m).source = _ from
            WalkSource.keySchema_eq source] at hresume
        rcases hdecode : codec.decode token with e | key
        · have hrefused : (Pager.make source codec m).codec.decode token = .error e := hdecode
          simp only [hrefused] at hresume
          cases hresume
        · exact PositionCodec.size_le_of_decode hdecode
      · rintro rfl
        rw [Pager.cap, Pager.setLimit] at h
        split_ifs at h <;> cases h

end CursorPaging
