import CursorPaging.Proofs.Traversal.Calls

/-!
# What a source supplies

Every record that a walk holds came with some page. What all records of all pages have in common
therefore holds of the last record handed out, and of the record that a position points at.

* `Supplied`: an invariant of the source, and what the records at hand have in common;
* `Supplies`, **`calls_supplied`**: if fetches bring only such records, calls keep it;
  `calls_codec`;
* `encodePosition_eq_some`, `currentKey_eq_some`: the record that a token stands for;
* `keyOfLast`, `resumeKey_of_last`: the key of the last of the records handed out.
-/

namespace CursorPaging

namespace Traversal

variable {σ α : Type} {I : σ → Prop} {P : Record → Prop} {fuel : Nat} {t u : Traversal σ α}

/-- The source has an invariant, and the records at hand have a property. -/
structure Supplied (I : σ → Prop) (P : Record → Prop) (t : Traversal σ α) : Prop where
  source : I t.source
  buffer : ∀ record ∈ t.buffer, P record
  lastExamined : ∀ record, t.lastExamined = some record → P record

theorem supplied_start {source : σ} (h : I source) (limit : Limit) (codec : PositionCodec)
    (m : Record → Except PagingError α) : (start source limit codec m).Supplied I P :=
  ⟨h, fun _ hr => absurd hr List.not_mem_nil, fun _ hr => nomatch hr⟩

theorem supplied_take {record : Record} {rest : List Record} (hbuffer : t.buffer = record :: rest)
    (h : t.Supplied I P) : (t.take record rest).Supplied I P := by
  have hall := h.buffer
  rw [hbuffer] at hall
  obtain ⟨hrecord, hrest⟩ := List.forall_mem_cons.1 hall
  exact ⟨h.source, hrest, fun _ hlast => Option.some.inj hlast ▸ hrecord⟩

variable [PageSource σ]

/-- Fetches keep an invariant of the source, and all records that they bring have a property. -/
structure Supplies (I : σ → Prop) (P : Record → Prop) : Prop where
  keeps : ∀ {s : σ}, I s → I (PageSource.fetchPage s).2
  records : ∀ {s u : σ} {page : Page}, I s → PageSource.fetchPage s = (.ok page, u) →
    ∀ record ∈ page.records, P record

theorem supplied_look (hI : Supplies I P) (hlook : Look t u) (h : t.Supplied I P) :
    u.Supplied I P := by
  cases hlook with
  | phase => exact ⟨h.source, h.buffer, h.lastExamined⟩
  | page more fetch =>
    refine ⟨?_, fun record hrecord => ?_, h.lastExamined⟩
    · have hkept := hI.keeps h.source
      rw [fetch] at hkept
      exact hkept
    · rcases List.mem_append.1 hrecord with hrecord | hrecord
      · exact h.buffer record hrecord
      · exact hI.records h.source fetch record hrecord
  | failure more fetch =>
    have hkept := hI.keeps h.source
    rw [fetch] at hkept
    exact ⟨hkept, h.buffer, h.lastExamined⟩

/-- **Calls keep** the invariant of the source and the property of the records at hand. -/
theorem calls_supplied (hI : Supplies I P) {cs : List Call} {answers : List (Answer α)}
    (hcalls : calls fuel cs t = some (answers, u)) (h : t.Supplied I P) : u.Supplied I P :=
  calls_keeps (supplied_look hI) supplied_take hcalls h

theorem calls_codec {cs : List Call} {answers : List (Answer α)}
    (hcalls : calls fuel cs t = some (answers, u)) : u.codec = t.codec :=
  calls_keeps (P := fun v => v.codec = t.codec) (fun hlook hv => by cases hlook <;> exact hv)
    (fun _ hv => hv) hcalls rfl

/-! ## Positions -/

variable {schema : KeySchema} {removeHashKey : Bool} {token : String} {key : ResumeKey}

theorem encodePosition_eq_some (h : t.encodePosition removeHashKey = .ok (some token)) :
    ∃ key, t.resumeKey removeHashKey = .ok (some key) ∧ t.codec.encode key = .ok token := by
  unfold encodePosition at h
  rcases hkey : t.resumeKey removeHashKey with e | _ | key
  · rw [hkey] at h
    cases h
  · rw [hkey] at h
    cases h
  · rw [hkey] at h
    rcases htoken : t.codec.encode key with e | text
    · simp only [htoken] at h
      cases h
    · simp only [htoken] at h
      cases h
      exact ⟨key, rfl, htoken⟩

omit [PageSource σ] in
theorem currentKey_eq_some (h : t.currentKey schema = .ok (some key)) :
    ∃ record, t.lastExamined = some record ∧ record.project schema.fields = .ok key := by
  unfold currentKey at h
  split_ifs at h with hphase
  · cases h
  · cases hlast : t.lastExamined with
    | none =>
      rw [hlast] at h
      cases h
    | some record =>
      rcases hproject : record.project schema.fields with field | found
      · simp only [hlast, hproject] at h
        cases h
      · simp only [hlast, hproject] at h
        cases h
        exact ⟨record, rfl, hproject⟩

theorem resumeKey_whole (hschema : PageSource.keySchema t.source = .ok schema)
    (h : t.resumeKey false = .ok (some key)) : t.currentKey schema = .ok (some key) := by
  unfold resumeKey at h
  rw [hschema] at h
  exact h

theorem resumeKey_short (hschema : PageSource.keySchema t.source = .ok schema)
    (h : t.resumeKey true = .ok (some key)) : ∃ whole, t.currentKey schema = .ok (some whole) ∧
      key = ⟨whole.fields.erase schema.hashKey⟩ := by
  unfold resumeKey at h
  rw [hschema] at h
  simp only [if_true] at h
  rcases hcheck : t.checkRemoveHashKey schema with e | _
  · simp only [hcheck] at h
    cases h
  · rcases hwhole : t.currentKey schema with e | _ | whole
    · simp only [hcheck, hwhole] at h
      cases h
    · simp only [hcheck, hwhole] at h
      cases h
    · simp only [hcheck, hwhole] at h
      cases h
      exact ⟨whole, rfl, rfl⟩

/-- The key of the last of some records, if there is one. -/
def keyOfLast (schema : KeySchema) (records : List Record) :
    Except PagingError (Option ResumeKey) :=
  match records.getLast? with
  | none => .ok none
  | some record =>
    match record.project schema.fields with
    | .ok key => .ok (some key)
    | .error field => .error (.missingKeyField field)

theorem resumeKey_of_last {taken : List Record} (hphase : t.phase ≠ .exhausted)
    (hlast : t.lastExamined = taken.getLast?)
    (hschema : PageSource.keySchema t.source = .ok schema) :
    t.resumeKey false = keyOfLast schema taken := by
  rw [resumeKey, hschema]
  change t.currentKey schema = _
  rw [currentKey, if_neg hphase, hlast]
  rfl

end Traversal

end CursorPaging
