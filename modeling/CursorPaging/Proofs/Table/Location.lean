import CursorPaging.Proofs.FieldMap
import CursorPaging.Proofs.Scalar
import CursorPaging.Table

/-!
# Where rows are stored

A row is stored under its hash value and its range value. Its key fields say where, and so does
every key that is made of them.

* `Location`, `Location.order`: hash values first, then range values; `Location.Sound`;
* `before_trans`, `before_or_eq_or_before`;
* `KeySchema.Names`: key fields that name a location; **`KeySchema.Locates`**: by values that keys
  are made of;
* `locate_eq_ok`, `locates_of_locate`: a table finds it; `exists_project`: the key of a row has it;
* `KeySchema.Flaw`: why fields name no location; **`locate_cases`**: a table tells which.
-/

namespace CursorPaging

/-- A hash value and a range value. -/
abbrev Location := Scalar × Scalar

namespace Location

/-- By hash value, then by range value. -/
def order (a b : Location) : Ordering := (a.1.order b.1).then (a.2.order b.2)

def Before (a b : Location) : Prop := a.order b = .lt

instance (a b : Location) : Decidable (a.Before b) := inferInstanceAs (Decidable (_ = _))

/-- Values on which the order is transitive. -/
structure Sound (loc : Location) : Prop where
  hash : loc.1.Sound
  range : loc.2.Sound

theorem before_iff {a b : Location} :
    a.Before b ↔ a.1.order b.1 = .lt ∨ a.1 = b.1 ∧ a.2.order b.2 = .lt := by
  rw [Before, order, Ordering.then_eq_lt, Scalar.order_eq_iff]

theorem before_irrefl (a : Location) : ¬ a.Before a := by
  rw [before_iff, Scalar.order_self, Scalar.order_self]
  simp

theorem before_trans {a b c : Location} (ha : a.Sound) (hb : b.Sound) (hc : c.Sound)
    (hab : a.Before b) (hbc : b.Before c) : a.Before c := by
  rw [before_iff] at hab hbc ⊢
  rcases hab with hab | ⟨hab, hab'⟩ <;> rcases hbc with hbc | ⟨hbc, hbc'⟩
  · exact .inl (Scalar.order_lt_trans ha.hash hb.hash hc.hash hab hbc)
  · exact .inl (hbc ▸ hab)
  · exact .inl (hab ▸ hbc)
  · exact .inr ⟨hab.trans hbc, Scalar.order_lt_trans ha.range hb.range hc.range hab' hbc'⟩

theorem before_or_eq_or_before (a b : Location) : a.Before b ∨ a = b ∨ b.Before a := by
  have heq : a.order b = .eq → a = b := fun h => by
    rw [order, Ordering.then_eq_eq, Scalar.order_eq_iff, Scalar.order_eq_iff] at h
    exact Prod.ext h.1 h.2
  have hswap : (a.order b).swap = b.order a := by
    rw [order, Ordering.swap_then, Scalar.order_swap, Scalar.order_swap]
    rfl
  unfold Before
  rw [← hswap]
  cases horder : a.order b with
  | lt => exact .inl rfl
  | eq => exact .inr (.inl (heq horder))
  | gt => exact .inr (.inr rfl)

end Location

/-- Texts and numbers, whatever text a number has. -/
def Scalar.Storable (s : Scalar) : Prop := s.kind = .text ∨ s.kind = .number

theorem Scalar.IsKey.storable : ∀ {s : Scalar}, s.IsKey → s.Storable
  | .text _, _ => .inl rfl
  | .number _, _ => .inr rfl

namespace KeySchema

/-- Key fields that name a location by texts and numbers; without a range key the range value is
null. -/
structure Names (schema : KeySchema) (fields : FieldMap) (loc : Location) : Prop where
  hash : fields.get? schema.hashKey = some loc.1
  hashStorable : loc.1.Storable
  range : ∀ field, schema.rangeKey = some field → fields.get? field = some loc.2 ∧ loc.2.Storable
  noRange : schema.rangeKey = none → loc.2 = .null

/-- Key fields that name a location by the values that keys are made of: texts, and numbers that
spell finite numbers. -/
structure Locates (schema : KeySchema) (fields : FieldMap) (loc : Location) : Prop where
  hash : fields.get? schema.hashKey = some loc.1
  hashIsKey : loc.1.IsKey
  range : ∀ field, schema.rangeKey = some field → fields.get? field = some loc.2 ∧ loc.2.IsKey
  noRange : schema.rangeKey = none → loc.2 = .null

variable {schema : KeySchema} {fields other : FieldMap} {a b : Location}

theorem Locates.sound (h : schema.Locates fields a) : a.Sound where
  hash := h.hashIsKey.sound
  range := by
    cases hrange : schema.rangeKey with
    | none =>
      rw [h.noRange hrange]
      exact Scalar.sound_null
    | some field => exact (h.range field hrange).2.sound

theorem Names.unique (ha : schema.Names fields a) (hb : schema.Names fields b) : a = b := by
  refine Prod.ext (Option.some.inj (ha.hash.symm.trans hb.hash)) ?_
  cases hrange : schema.rangeKey with
  | none => rw [ha.noRange hrange, hb.noRange hrange]
  | some field =>
    exact Option.some.inj ((ha.range field hrange).1.symm.trans (hb.range field hrange).1)

theorem Locates.names (h : schema.Locates fields a) : schema.Names fields a where
  hash := h.hash
  hashStorable := h.hashIsKey.storable
  range field hfield := (h.range field hfield).imp_right Scalar.IsKey.storable
  noRange := h.noRange

theorem mem_fields {field : String} :
    field ∈ schema.fields ↔ field = schema.hashKey ∨ schema.rangeKey = some field := by
  rw [KeySchema.fields, List.mem_cons, Option.mem_toList]

theorem Locates.congr (h : schema.Locates fields a)
    (hagree : ∀ field ∈ schema.fields, other.get? field = fields.get? field) :
    schema.Locates other a where
  hash := (hagree _ (mem_fields.2 (.inl rfl))).trans h.hash
  hashIsKey := h.hashIsKey
  range field hfield :=
    ⟨(hagree _ (mem_fields.2 (.inr hfield))).trans (h.range field hfield).1,
      (h.range field hfield).2⟩
  noRange := h.noRange

theorem Locates.get? (h : schema.Locates fields a) {field : String}
    (hfield : field ∈ schema.fields) :
    ∃ value, fields.get? field = some value ∧ value.IsKey := by
  rcases mem_fields.1 hfield with rfl | hrange
  · exact ⟨a.1, h.hash, h.hashIsKey⟩
  · exact ⟨a.2, h.range field hrange⟩

theorem Locates.contains (h : schema.Locates fields a) {field : String}
    (hfield : field ∈ schema.fields) : fields.contains field = true :=
  FieldMap.contains_iff.2 ((h.get? hfield).imp fun _ hvalue => hvalue.1)

/-! ## Keys of rows -/

theorem exists_project {row : Record} (h : schema.Locates row.fields a) :
    ∃ key, row.project schema.fields = .ok key ∧ schema.Locates key.fields a ∧
      key.fields.entries ≠ [] ∧ ∀ e ∈ key.fields.entries, e.2.IsKey := by
  obtain ⟨fields, hfields⟩ :=
    FieldMap.project_of_contains (m := row.fields) fun _ hfield => h.contains hfield
  have hget := FieldMap.get?_project hfields
  refine ⟨⟨fields⟩, by rw [Record.project, hfields]; rfl, h.congr fun field hfield => ?_, ?_, ?_⟩
  · rw [hget, if_pos hfield]
  · intro hnil
    have hhash : fields.get? schema.hashKey = some a.1 := by
      rw [hget, if_pos (mem_fields.2 (.inl rfl)), h.hash]
    rw [FieldMap.get?_eq_some_iff, hnil] at hhash
    exact List.not_mem_nil hhash
  · rintro ⟨field, value⟩ he
    have hvalue := FieldMap.get?_eq_some_iff.2 he
    rw [hget] at hvalue
    split_ifs at hvalue with hfield
    obtain ⟨other, hother, hkey⟩ := h.get? hfield
    rw [hvalue] at hother
    rw [Option.some.inj hother]
    exact hkey

end KeySchema

namespace Table

variable {t : Table} {fields : FieldMap} {loc : Location} {field : String} {value : Scalar}

theorem keyValue_eq_ok (h : fields.get? field = some value) (hkey : value.IsKey) :
    t.keyValue fields field = .ok value := by
  rw [keyValue, h]
  cases value with
  | text s => rfl
  | number s => rfl
  | null => exact hkey.elim
  | boolean b => exact hkey.elim
  | bytes b => exact hkey.elim

theorem get?_of_keyValue (h : t.keyValue fields field = .ok value) :
    fields.get? field = some value ∧
      ((∀ digits, value = .number digits → (Binary64.finite? digits).isSome) → value.IsKey) := by
  unfold keyValue at h
  split at h
  · rename_i hget
    cases h
    exact ⟨hget, fun _ => trivial⟩
  · rename_i s hget
    cases h
    exact ⟨hget, fun hfinite => hfinite s rfl⟩
  · cases h
  · cases h

theorem locate_eq_ok (h : t.schema.Locates fields loc) : t.locate fields = .ok loc := by
  rw [locate, keyValue_eq_ok h.hash h.hashIsKey]
  cases hrange : t.schema.rangeKey with
  | none =>
    obtain ⟨hash, range⟩ := loc
    obtain rfl : range = .null := h.noRange hrange
    rfl
  | some rangeKey =>
    obtain ⟨hget, hkey⟩ := h.range rangeKey hrange
    simp only [keyValue_eq_ok hget hkey]

/-- The numbers in the key fields spell finite numbers. -/
def FiniteKey (schema : KeySchema) (fields : FieldMap) : Prop :=
  ∀ field ∈ schema.fields, ∀ digits, fields.get? field = some (.number digits) →
    (Binary64.finite? digits).isSome = true

/-- Whether a key field holds no number, or one that spells a finite number. -/
def hasFinite (fields : FieldMap) (field : String) : Bool :=
  match fields.get? field with
  | some (.number digits) => (Binary64.finite? digits).isSome
  | _ => true

theorem hasFinite_iff {fields : FieldMap} {field : String} : hasFinite fields field = true ↔
    ∀ digits, fields.get? field = some (.number digits) →
      (Binary64.finite? digits).isSome = true := by
  unfold hasFinite
  split
  · rename_i digits hget
    rw [hget]
    refine ⟨fun h other hother => ?_, fun h => h digits rfl⟩
    cases hother
    exact h
  · rename_i hnot
    exact ⟨fun _ digits hget => absurd hget (hnot digits), fun _ => rfl⟩

instance (schema : KeySchema) (fields : FieldMap) : Decidable (FiniteKey schema fields) :=
  decidable_of_iff (∀ field ∈ schema.fields, hasFinite fields field = true)
    (forall₂_congr fun _ _ => hasFinite_iff)

theorem locates_of_locate (hfinite : FiniteKey t.schema fields) (h : t.locate fields = .ok loc) :
    t.schema.Locates fields loc := by
  have hkey (field : String) (hfield : field ∈ t.schema.fields) (value : Scalar)
      (hvalue : t.keyValue fields field = .ok value) :
      fields.get? field = some value ∧ value.IsKey := by
    obtain ⟨hget, hkey⟩ := get?_of_keyValue hvalue
    refine ⟨hget, hkey ?_⟩
    rintro digits rfl
    exact hfinite field hfield digits hget
  rw [locate] at h
  cases hhash : t.keyValue fields t.schema.hashKey with
  | error e =>
    rw [hhash] at h
    cases h
  | ok hash =>
    obtain ⟨hget, hisKey⟩ := hkey _ (KeySchema.mem_fields.2 (.inl rfl)) _ hhash
    rw [hhash] at h
    cases hrange : t.schema.rangeKey with
    | none =>
      simp only [hrange] at h
      cases h
      exact ⟨hget, hisKey, fun field hfield => by simp [hrange] at hfield, fun _ => rfl⟩
    | some rangeKey =>
      cases hvalue : t.keyValue fields rangeKey with
      | error e =>
        simp only [hrange, hvalue] at h
        cases h
      | ok range =>
        simp only [hrange, hvalue] at h
        cases h
        refine ⟨hget, hisKey, fun field hfield => ?_, fun hnone => by simp [hrange] at hnone⟩
        cases hrange.symm.trans hfield
        exact hkey _ (KeySchema.mem_fields.2 (.inr hrange)) _ hvalue

end Table

/-! ## What names no location -/

namespace KeySchema

/-- Why some fields name no location: a key field that is missing or is of another kind. -/
inductive Flaw (schema : KeySchema) (fields : FieldMap) : KeyFault → Prop
  | missing {field : String} (key : field ∈ schema.fields) (absent : fields.get? field = none) :
      Flaw schema fields (.missing field)
  | wrongKind {field : String} {value : Scalar} (key : field ∈ schema.fields)
      (found : fields.get? field = some value) (kind : ¬ value.Storable) :
      Flaw schema fields (.wrongKind field value.kind)

variable {schema : KeySchema} {fields : FieldMap} {a : Location} {fault : KeyFault}

theorem Names.get? (h : schema.Names fields a) {field : String} (hfield : field ∈ schema.fields) :
    ∃ value, fields.get? field = some value ∧ value.Storable := by
  rcases mem_fields.1 hfield with rfl | hrange
  · exact ⟨a.1, h.hash, h.hashStorable⟩
  · exact ⟨a.2, h.range field hrange⟩

theorem Flaw.not_names (h : schema.Flaw fields fault) : ¬ schema.Names fields a := by
  intro hnames
  cases h with
  | missing key absent =>
    obtain ⟨value, hvalue, -⟩ := hnames.get? key
    rw [absent] at hvalue
    cases hvalue
  | wrongKind key found kind =>
    obtain ⟨value, hvalue, hstorable⟩ := hnames.get? key
    rw [found] at hvalue
    exact kind (Option.some.inj hvalue ▸ hstorable)

end KeySchema

namespace Table

theorem keyValue_cases (t : Table) (fields : FieldMap) {field : String}
    (hfield : field ∈ t.schema.fields) :
    (∃ value, fields.get? field = some value ∧ value.Storable ∧
        t.keyValue fields field = .ok value) ∨
      ∃ fault, t.schema.Flaw fields fault ∧ t.keyValue fields field = .error (t.invalid fault) := by
  unfold keyValue
  cases hget : fields.get? field with
  | none => exact .inr ⟨_, .missing hfield hget, rfl⟩
  | some value =>
    cases value with
    | text s => exact .inl ⟨.text s, rfl, .inl rfl, rfl⟩
    | number digits => exact .inl ⟨.number digits, rfl, .inr rfl, rfl⟩
    | null => exact .inr ⟨_, .wrongKind hfield hget (by simp [Scalar.Storable, Scalar.kind]), rfl⟩
    | boolean b =>
      exact .inr ⟨_, .wrongKind hfield hget (by simp [Scalar.Storable, Scalar.kind]), rfl⟩
    | bytes b =>
      exact .inr ⟨_, .wrongKind hfield hget (by simp [Scalar.Storable, Scalar.kind]), rfl⟩

/-- **A table finds the location that fields name**, or tells why they name none. -/
theorem locate_cases (t : Table) (fields : FieldMap) :
    (∃ loc, t.schema.Names fields loc ∧ t.locate fields = .ok loc) ∨
      ∃ fault, t.schema.Flaw fields fault ∧ t.locate fields = .error (t.invalid fault) := by
  unfold locate
  rcases t.keyValue_cases fields (KeySchema.mem_fields.2 (.inl rfl)) with
    ⟨hash, hhash, hstorable, hvalue⟩ | ⟨fault, hflaw, hvalue⟩
  · rw [hvalue]
    cases hrange : t.schema.rangeKey with
    | none =>
      exact .inl ⟨(hash, .null), ⟨hhash, hstorable, by simp [hrange], fun _ => rfl⟩, rfl⟩
    | some field =>
      dsimp only
      rcases t.keyValue_cases fields (KeySchema.mem_fields.2 (.inr hrange)) with
        ⟨range, hget, hstorable', hvalue'⟩ | ⟨fault, hflaw, hvalue'⟩
      · rw [hvalue']
        refine .inl ⟨(hash, range), ⟨hhash, hstorable, ?_, by simp [hrange]⟩, rfl⟩
        rintro field' hfield'
        obtain rfl := Option.some.inj (hrange.symm.trans hfield')
        exact ⟨hget, hstorable'⟩
      · rw [hvalue']
        exact .inr ⟨fault, hflaw, rfl⟩
  · rw [hvalue]
    exact .inr ⟨fault, hflaw, rfl⟩

theorem locate_eq_ok_iff {t : Table} {fields : FieldMap} {loc : Location} :
    t.locate fields = .ok loc ↔ t.schema.Names fields loc := by
  rcases t.locate_cases fields with ⟨place, hnames, hlocate⟩ | ⟨fault, hflaw, hlocate⟩
  · rw [hlocate]
    constructor
    · intro h
      cases h
      exact hnames
    · intro h
      rw [hnames.unique h]
  · rw [hlocate]
    constructor
    · intro h
      cases h
    · intro h
      exact absurd h hflaw.not_names

end Table

end CursorPaging
