import CursorPaging.Proofs.CommandLine.Report
import CursorPaging.Proofs.CommandLine.Seed
import CursorPaging.Proofs.Pager

/-!
# Tokens of the seed

A run is given the token of a row and goes on after it. It prints the token of the last row that it
printed, unless it is exhausted. With a hash key of its own, the token leaves out that of the row.

* `Demo.tokenKey`, **`Demo.token`**: the key fields that a token holds, and the token;
* `encode_tokenKey`, `decode_token`: writing and reading it;
* `resumeKey_of_allowed`, **`tokenFor_exhausted`**, **`tokenFor_last`**: what a run prints;
* `Placed`: what a run is given; `configure_of_place`, `configure_start`, **`configure_after`**:
  where that starts it.
-/

namespace CursorPaging

/-- The key fields of a position: without the hash key if that is given apart. -/
def ResumeKey.shorten (key : ResumeKey) (schema : KeySchema) (short : Bool) : ResumeKey :=
  if short then ⟨key.fields.erase schema.hashKey⟩ else key

namespace Demo

variable {i rows : Nat} {short : Bool}

/-- The key fields that a token of a row holds. -/
def tokenKey (short : Bool) (index rows : Nat) : ResumeKey :=
  (key index rows).shorten schema short

/-- The token of a row. -/
def token (short : Bool) (index rows : Nat) : String :=
  PositionCodec.tokenOf (tokenKey short index rows)

theorem get?_tokenKey_id (short : Bool) (i rows : Nat) :
    (tokenKey short i rows).fields.get? "id" = some (.text (rowId i rows)) := by
  cases short with
  | false => exact get?_key i rows "id"
  | true =>
    rw [tokenKey, ResumeKey.shorten, if_pos rfl, FieldMap.get?_erase, if_neg (by decide)]
    exact get?_key i rows "id"

theorem entries_tokenKey_ne_nil (short : Bool) (i rows : Nat) :
    (tokenKey short i rows).fields.entries ≠ [] := by
  intro hnil
  have hid := FieldMap.get?_eq_some_iff.1 (get?_tokenKey_id short i rows)
  rw [hnil] at hid
  exact List.not_mem_nil hid

theorem isKey_of_mem_key {e : String × Scalar} (he : e ∈ (key i rows).fields.entries) :
    e.2.IsKey := by
  have hget := FieldMap.get?_eq_some_iff.2 he
  rw [get?_key] at hget
  split_ifs at hget <;> rw [← Option.some.inj hget] <;> trivial

theorem isKey_of_mem_tokenKey {e : String × Scalar}
    (he : e ∈ (tokenKey short i rows).fields.entries) : e.2.IsKey := by
  cases short with
  | false => exact isKey_of_mem_key he
  | true => exact isKey_of_mem_key (List.mem_of_mem_filter he)

theorem encode_tokenKey (codec : PositionCodec) (short : Bool) (i rows : Nat) :
    codec.encode (tokenKey short i rows) = .ok (token short i rows) :=
  PositionCodec.encode_eq_ok codec (entries_tokenKey_ne_nil short i rows)
    fun _ he => isKey_of_mem_tokenKey he

theorem decode_token {codec : PositionCodec}
    (hsize : Utf8.size (token short i rows) ≤ codec.maxTokenLength) :
    codec.decode (token short i rows) = .ok (tokenKey short i rows) :=
  PositionCodec.decode_tokenOf (entries_tokenKey_ne_nil short i rows)
    (fun _ he => isKey_of_mem_tokenKey he) hsize

theorem insert_tokenKey (i rows : Nat) :
    (tokenKey true i rows).fields.insert schema.hashKey (.text tenant) = (key i rows).fields :=
  FieldMap.insert_erase (locates_key i rows).hash

end Demo

namespace Traversal

variable {σ α : Type} [PageSource σ] {t : Traversal σ α} {schema : KeySchema} {short : Bool}

/-- Where it is allowed, a position is that of the whole key or of what is left of it without its
hash key. -/
theorem resumeKey_of_allowed (hschema : PageSource.keySchema t.source = .ok schema)
    (hallowed : short = true → t.checkRemoveHashKey schema = .ok ()) :
    t.resumeKey short = (t.currentKey schema).map (·.map (·.shorten schema short)) := by
  simp only [resumeKey, hschema]
  cases short with
  | false => rcases t.currentKey schema with e | _ | key <;> rfl
  | true =>
    simp only [hallowed rfl]
    rfl

end Traversal

namespace CommandLine

variable {σ : Type} [PageSource σ] {a : Arguments} {s : σ} {v : Traversal σ DemoRow}
  {codec : PositionCodec} {limit : Option Nat} {taken : List Record} {i rows : Nat}

/-! ## What a run prints -/

/-- A source over the seed that has positions, without their hash key if the arguments have one. -/
structure Positions (a : Arguments) (s : σ) : Prop where
  schema : PageSource.keySchema s = .ok Demo.schema
  kind : PageSource.kind s ≠ .batchGet
  short : a.hashKey.isSome = true → PageSource.kind s = .rangeQuery
  kept : KeysKept s

theorem resumeKey_finished (h : Positions a s) (hfinished : Finished s codec limit taken v) :
    v.resumeKey a.hashKey.isSome = (v.currentKey Demo.schema).map
      (·.map (·.shorten Demo.schema a.hashKey.isSome)) := by
  obtain ⟨hkind, hschema⟩ := h.kept v.source hfinished.leads
  refine Traversal.resumeKey_of_allowed (hschema.trans h.schema) fun hshort => ?_
  rw [Traversal.checkRemoveHashKey, hkind, h.short hshort]
  rfl

theorem tokenFor_eq (h : Positions a s) (hfinished : Finished s codec limit taken v) :
    tokenFor a v = v.encodePosition a.hashKey.isSome := by
  rw [tokenFor, (h.kept v.source hfinished.leads).1, if_neg h.kind]

/-- **An exhausted walk** has nothing to go on after. -/
theorem tokenFor_exhausted (h : Positions a s) (hfinished : Finished s codec limit taken v)
    (hopen : ∀ n, limit = some n → taken.length < n) : tokenFor a v = .ok none := by
  have hkey : v.currentKey Demo.schema = .ok none := if_pos (hfinished.exhausted.2 hopen)
  rw [tokenFor_eq h hfinished, Traversal.encodePosition, resumeKey_finished h hfinished, hkey]
  rfl

/-- **A walk that has reached its limit** goes on after the last row. -/
theorem tokenFor_last (h : Positions a s) (hfinished : Finished s codec limit taken v)
    (hreached : ¬ ∀ n, limit = some n → taken.length < n)
    (hlast : taken.getLast? = some (Demo.row i rows)) :
    tokenFor a v = .ok (some (Demo.token a.hashKey.isSome i rows)) := by
  have hkey : v.currentKey Demo.schema = .ok (some (Demo.key i rows)) := by
    rw [Traversal.currentKey, if_neg fun hphase => hreached (hfinished.exhausted.1 hphase),
      hfinished.last, hlast]
    simp only [Demo.project_row]
  have hencode := Demo.encode_tokenKey codec a.hashKey.isSome i rows
  rw [Demo.tokenKey] at hencode
  rw [tokenFor_eq h hfinished, Traversal.encodePosition, resumeKey_finished h hfinished, hkey]
  simp only [Except.map, Option.map_some, hfinished.codec, hencode]

/-! ## What a run is given -/

/-- Arguments with which a run goes on after some rows of the seed. -/
inductive Placed (a : Arguments) (codec : PositionCodec) : Nat → Prop
  | start (position : a.position = none) : Placed a codec 0
  | after (i : Nat) (inside : i < a.rowCount)
      (position : a.position = some (Demo.token a.hashKey.isSome i a.rowCount))
      (hash : ∀ hash, a.hashKey = some hash → hash = Demo.tenant)
      (size : Utf8.size (Demo.token a.hashKey.isSome i a.rowCount) ≤ codec.maxTokenLength) :
      Placed a codec (i + 1)

/-- A pager with the limit of the arguments. -/
def limited (a : Arguments) (codec : PositionCodec) (s : σ) : Pager σ DemoRow :=
  ⟨s, .upTo a.limit, codec, false, DemoRow.ofRecord⟩

/-- The position that the arguments ask for. -/
def place (a : Arguments) (pager : Pager σ DemoRow) : Except PagingError Unit × Pager σ DemoRow :=
  match a.position, a.hashKey with
  | none, _ => (.ok (), pager)
  | some token, some hash => pager.setPositionWithHashKey token (.text hash)
  | some token, none => pager.setPosition token

theorem configure_of_place (hlimit : a.limit ≠ some 0) {s' : σ}
    (hplace : place a (limited a codec s) = (.ok (), limited a codec s')) :
    configure a (Pager.make s codec DemoRow.ofRecord) = .ok (limited a codec s') := by
  cases hcase : a.limit with
  | none =>
    have hsame : Pager.make s codec DemoRow.ofRecord = limited a codec s := by
      rw [limited, hcase]
      rfl
    rcases hposition : a.position with _ | token <;> rcases hhash : a.hashKey with _ | hash <;>
      simp only [place, hposition, hhash] at hplace <;>
      simp only [configure, hcase, hsame, hposition, hhash, hplace]
  | some n =>
    have hn : n ≠ 0 := fun h => hlimit (hcase.trans (congrArg some h))
    have hset : (Pager.make s codec DemoRow.ofRecord).setLimit n = (.ok (), limited a codec s) := by
      simp only [Pager.setLimit, Pager.make, Limit.atMost, if_neg hn, limited, hcase]
      rfl
    rcases hposition : a.position with _ | token <;> rcases hhash : a.hashKey with _ | hash <;>
      simp only [place, hposition, hhash] at hplace <;>
      simp only [configure, hcase, hset, hposition, hhash, hplace]

theorem configure_start (hlimit : a.limit ≠ some 0) (hposition : a.position = none)
    (codec : PositionCodec) (s : σ) :
    configure a (Pager.make s codec DemoRow.ofRecord) = .ok (limited a codec s) :=
  configure_of_place hlimit (by rw [place, hposition])

theorem configure_after (hlimit : a.limit ≠ some 0)
    (hposition : a.position = some (Demo.token a.hashKey.isSome i rows))
    (hhash : ∀ hash, a.hashKey = some hash → hash = Demo.tenant)
    (hsize : Utf8.size (Demo.token a.hashKey.isSome i rows) ≤ codec.maxTokenLength)
    (h : Positions a s) (hfield : PageSource.hashKeyField s = .ok Demo.schema.hashKey) {s' : σ}
    (hset : PageSource.setStart s (Demo.key i rows) = (.ok (), s')) :
    configure a (Pager.make s codec DemoRow.ofRecord) = .ok (limited a codec s') := by
  have hstart : (limited a codec s).setStart (Demo.key i rows) = (.ok (), limited a codec s') := by
    simp only [Pager.setStart, limited, hset]
  have hdecode := Demo.decode_token hsize
  refine configure_of_place hlimit ?_
  cases hcase : a.hashKey with
  | none =>
    rw [hcase] at hposition hdecode
    simp only [place, hposition, hcase]
    exact (Pager.setPosition_of_decode (p := limited a codec s) rfl h.schema hdecode).trans hstart
  | some hash =>
    obtain rfl := hhash hash hcase
    rw [hcase, Option.isSome_some] at hposition hdecode
    have hkind : PageSource.kind s = .rangeQuery := h.short (by rw [hcase]; rfl)
    have hstarted : (limited a codec s).started = false := rfl
    have hplaced : (limited a codec s).setPositionWithHashKey (Demo.token true i rows)
        (.text Demo.tenant) = (limited a codec s).setStart (Demo.key i rows) := by
      rw [Pager.setPositionWithHashKey_of_decode hstarted hkind hfield hdecode,
        Demo.insert_tokenKey]
    simp only [place, hposition, hcase]
    exact hplaced.trans hstart

end CommandLine

end CursorPaging
