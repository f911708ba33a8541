import CursorPaging.Proofs.Table.Stored

/-!
# Requests

Queries and scans as one kind of request. It reads some rows in the order of its walk, and filters
select among those that were read.

* `WalkStore`: a store that answers both; `Request`, `Request.Fits`, `Request.page`;
* `Request.Ahead`: the order of a walk;
* **`Request.reads`**, **`Request.matching`**: the rows of a request in that order, read and
  selected;
* `reads_sorted`, `matching_spec`; `readsAfter_of_split`: after a row that was read comes what was
  left then.
-/

namespace CursorPaging

/-- A store that answers queries and scans. -/
class WalkStore (β : Type) extends QueryStore β, ScanStore β

instance : WalkStore Table where

/-- A query or a scan. -/
inductive Request where
  | query (request : QueryRequest)
  | scan (request : ScanRequest)
  deriving DecidableEq, Repr

namespace Request

def table : Request → String
  | .query q => q.table
  | .scan s => s.table

def filters : Request → List Filter
  | .query q => q.filters
  | .scan s => s.filters

def pageSize : Request → Option Nat
  | .query q => q.pageSize
  | .scan s => s.pageSize

/-- The same rows with other pages. -/
def withPageSize (pageSize : Option Nat) : Request → Request
  | .query q => .query { q with pageSize }
  | .scan s => .scan { s with pageSize }

/-- Whether the walk ascends. -/
def forward : Request → Bool
  | .query q => q.forward
  | .scan _ => true

/-- Whether there is a condition on range values. -/
def hasRange : Request → Bool
  | .query q => q.range.isSome
  | .scan _ => false

/-- The locations where a key to go on after may lie. -/
def Owns : Request → Location → Prop
  | .query q, loc => loc.1 = q.hash
  | .scan _, _ => True

/-- The locations whose rows are read. -/
def covers : Request → Location → Bool
  | .query q, loc => loc.1 = q.hash && q.range.all (·.holds loc.2)
  | .scan _, _ => true

/-- A request for a table: it names it, and conditions on range values need a range key. -/
structure Fits (r : Request) (t : Table) : Prop where
  name : r.table = t.name
  range : r.hasRange = true → t.schema.rangeKey.isSome = true

/-- `a` comes before `b` in the walk. -/
def Ahead (r : Request) (a b : Location) : Prop := if r.forward then a.Before b else b.Before a

instance (r : Request) (a b : Location) : Decidable (r.Ahead a b) := by
  unfold Ahead
  infer_instance

/-- The rows that are read, with their locations, in the order of the walk. -/
def reads (r : Request) (t : Table) : List (Location × Record) :=
  let rows := t.entries.filter (r.covers ·.1)
  if r.forward then rows else rows.reverse

/-- Those that are read after a location. -/
def readsAfter (r : Request) (t : Table) : Option Location → List (Location × Record)
  | none => r.reads t
  | some loc => (r.reads t).filter (r.Ahead loc ·.1)

/-- Those of some rows that pass the filters. -/
def select (r : Request) (rows : List (Location × Record)) : List Record :=
  (rows.map (·.2)).filter (passesAll r.filters)

/-- The rows of a request, in the order of its walk. -/
def matching (r : Request) (t : Table) : List Record := r.select (r.reads t)

/-- One page of a store, after a key. -/
def page {β : Type} [WalkStore β] (r : Request) (store : β)
    (start : Option ResumeKey) : Except StoreError PageOutput × β :=
  match r with
  | .query q => QueryStore.query store q start
  | .scan s => ScanStore.scan store s start

/-- A start key, if there is one, and the location that it names. -/
inductive StartsAt (r : Request) (schema : KeySchema) : Option ResumeKey → Option Location → Prop
  | none : StartsAt r schema none none
  | some {key : ResumeKey} {loc : Location} (located : schema.Locates key.fields loc)
      (owns : r.Owns loc) : StartsAt r schema (some key) (some loc)

variable {r : Request} {t : Table} {a b c loc : Location} {row : Record}

/-! ## The order of a walk -/

theorem ahead_irrefl (r : Request) (a : Location) : ¬ r.Ahead a a := by
  unfold Ahead
  split_ifs <;> exact Location.before_irrefl a

theorem ahead_trans (ha : a.Sound) (hb : b.Sound) (hc : c.Sound) (hab : r.Ahead a b)
    (hbc : r.Ahead b c) : r.Ahead a c := by
  unfold Ahead at *
  split_ifs at *
  · exact Location.before_trans ha hb hc hab hbc
  · exact Location.before_trans hc hb ha hbc hab

theorem ahead_asymm (ha : a.Sound) (hb : b.Sound) (hab : r.Ahead a b) : ¬ r.Ahead b a :=
  fun hba => ahead_irrefl r a (ahead_trans ha hb ha hab hba)

theorem ahead_or_eq_or_ahead (r : Request) (a b : Location) :
    r.Ahead a b ∨ a = b ∨ r.Ahead b a := by
  unfold Ahead
  split_ifs
  · exact Location.before_or_eq_or_before a b
  · rcases Location.before_or_eq_or_before a b with h | h | h
    · exact .inr (.inr h)
    · exact .inr (.inl h)
    · exact .inl h

theorem mem_reads_iff : (loc, row) ∈ r.reads t ↔ (loc, row) ∈ t.entries ∧ r.covers loc = true := by
  unfold reads
  split_ifs <;> simp [List.mem_filter]

theorem owns_of_covers (h : r.covers loc = true) : r.Owns loc := by
  cases r with
  | query q =>
    simp only [covers, Bool.and_eq_true, decide_eq_true_eq] at h
    exact h.1
  | scan s => trivial

theorem locates_of_mem_reads (h : t.WellFormed) (hrow : (loc, row) ∈ r.reads t) :
    t.schema.Locates row.fields loc :=
  Table.locates_of_mem_entries h (mem_reads_iff.1 hrow).1

/-- **Rows are read in the order of the walk.** -/
theorem reads_sorted (h : t.WellFormed) : (r.reads t).Pairwise fun a b => r.Ahead a.1 b.1 := by
  have hrows := (Table.entries_sorted h).filter (r.covers ·.1)
  unfold reads Ahead
  cases r.forward with
  | true => simpa using hrows
  | false => simpa [List.pairwise_reverse] using hrows

theorem readsAfter_sublist (r : Request) (t : Table) (start : Option Location) :
    (r.readsAfter t start).Sublist (r.reads t) := by
  cases start with
  | none => exact List.Sublist.refl _
  | some loc => exact List.filter_sublist

theorem select_append (r : Request) (a b : List (Location × Record)) :
    r.select (a ++ b) = r.select a ++ r.select b := by
  rw [select, List.map_append, List.filter_append]
  rfl

theorem mem_select {rows : List (Location × Record)} (h : row ∈ r.select rows) :
    ∃ loc, (loc, row) ∈ rows := by
  obtain ⟨e, he, rfl⟩ := List.mem_map.1 (List.mem_filter.1 h).1
  exact ⟨e.1, he⟩

theorem StartsAt.sound {schema : KeySchema} {key : Option ResumeKey} {start : Option Location}
    (h : r.StartsAt schema key start) (hloc : start = .some loc) : loc.Sound := by
  cases h with
  | none => cases hloc
  | some located owns =>
    cases hloc
    exact located.sound

theorem StartsAt.isSome_eq {schema : KeySchema} {key : Option ResumeKey} {start : Option Location}
    (h : r.StartsAt schema key start) : key.isSome = start.isSome := by cases h <;> rfl

theorem readsAfter_of_split (h : t.WellFormed) {start : Option Location}
    {read rest : List (Location × Record)} (hstart : ∀ a, start = some a → a.Sound)
    (hsplit : r.readsAfter t start = read ++ (loc, row) :: rest) :
    r.readsAfter t (some loc) = rest := by
  have hsub := readsAfter_sublist r t start
  have hsound {e : Location × Record} (he : e ∈ r.readsAfter t start) : e.1.Sound :=
    (locates_of_mem_reads h (hsub.subset he)).sound
  have hloc : (loc, row) ∈ r.readsAfter t start := by
    rw [hsplit]
    exact List.mem_append_right _ List.mem_cons_self
  -- what comes after `loc` comes after `start`
  have hlater : r.readsAfter t (some loc) = (r.readsAfter t start).filter (r.Ahead loc ·.1) := by
    cases hcase : start with
    | none => rfl
    | some a =>
      subst hcase
      have hahead : r.Ahead a loc := of_decide_eq_true (List.mem_filter.1 hloc).2
      simp only [readsAfter, List.filter_filter]
      refine List.filter_congr fun e he => ?_
      have hsounde := (locates_of_mem_reads h he).sound
      have htrans : r.Ahead loc e.1 → r.Ahead a e.1 :=
        ahead_trans (hstart a rfl) (hsound hloc) hsounde hahead
      by_cases hle : r.Ahead loc e.1
      · simp [hle, htrans hle]
      · simp [hle]
  have hsorted : (read ++ (loc, row) :: rest).Pairwise fun a b => r.Ahead a.1 b.1 :=
    hsplit ▸ (reads_sorted h).sublist hsub
  obtain ⟨-, hrest, hread⟩ := List.pairwise_append.1 hsorted
  rw [hlater, hsplit, List.filter_append, List.filter_eq_nil_iff.2, List.nil_append,
    List.filter_cons_of_neg (by simpa using ahead_irrefl r loc), List.filter_eq_self.2]
  · exact fun e he => decide_eq_true ((List.pairwise_cons.1 hrest).1 e he)
  · intro e he hahead
    have hback := hread e he (loc, row) List.mem_cons_self
    have hsounde : e.1.Sound := hsound (hsplit ▸ List.mem_append_left _ he)
    exact ahead_asymm hsounde (hsound hloc) hback (of_decide_eq_true hahead)

theorem select_readsAfter_of_split (h : t.WellFormed) {start : Option Location}
    {taken left : List Record} (hstart : ∀ a, start = some a → a.Sound)
    (hsplit : r.select (r.readsAfter t start) = taken ++ row :: left) :
    ∃ loc, (loc, row) ∈ r.reads t ∧ r.select (r.readsAfter t (some loc)) = left := by
  obtain ⟨_, later, hcut, -, hlater⟩ := List.filter_eq_append_iff.1 hsplit
  obtain ⟨_, rest, hrow, -, -, hrest⟩ := List.filter_eq_cons_iff.1 hlater
  rw [hrow, ← List.append_assoc] at hcut
  obtain ⟨read, others, hreads, -, hothers⟩ := List.map_eq_append_iff.1 hcut
  obtain ⟨⟨loc, row'⟩, unread, rfl, rfl, hunread⟩ := List.map_eq_cons_iff.1 hothers
  refine ⟨loc, ?_, ?_⟩
  · refine (readsAfter_sublist r t start).subset ?_
    rw [hreads]
    exact List.mem_append_right _ List.mem_cons_self
  · rw [readsAfter_of_split h hstart hreads, select, hunread, hrest]

/-- **The rows of a request**: those stored where it reads that pass its filters. -/
theorem matching_spec (r : Request) (h : t.WellFormed) : ∃ rows : List (Location × Record),
    r.matching t = rows.map (·.2) ∧ (rows.Pairwise fun a b => r.Ahead a.1 b.1) ∧
      ∀ loc row, (loc, row) ∈ rows ↔
        t.rowAt loc = some row ∧ r.covers loc = true ∧ passesAll r.filters row = true := by
  refine ⟨(r.reads t).filter (passesAll r.filters ·.2), List.filter_map,
    (reads_sorted h).filter _, fun loc row => ?_⟩
  rw [List.mem_filter, mem_reads_iff, Table.rowAt_eq_some_iff h, and_assoc]

theorem Fits.checkName (h : r.Fits t) : t.checkName r.table = .ok () := by
  rw [Table.checkName, if_pos h.name]

theorem Fits.keySchema (h : r.Fits t) : t.keySchema r.table = .ok t.schema := by
  rw [Table.keySchema, h.checkName]
  rfl

/-! ## Other pages -/

theorem fits_withPageSize (h : r.Fits t) (pageSize : Option Nat) :
    (r.withPageSize pageSize).Fits t := by
  cases r <;> exact ⟨h.name, h.range⟩

theorem owns_withPageSize (pageSize : Option Nat) :
    (r.withPageSize pageSize).Owns loc ↔ r.Owns loc := by
  cases r <;> exact Iff.rfl

theorem startsAt_withPageSize {key : Option ResumeKey} {start : Option Location}
    {schema : KeySchema} (pageSize : Option Nat) :
    (r.withPageSize pageSize).StartsAt schema key start ↔ r.StartsAt schema key start := by
  constructor
  · intro h
    cases h with
    | none => exact .none
    | some located owns => exact .some located ((owns_withPageSize pageSize).1 owns)
  · intro h
    cases h with
    | none => exact .none
    | some located owns => exact .some located ((owns_withPageSize pageSize).2 owns)

theorem select_withPageSize (r : Request) (t : Table) (pageSize : Option Nat)
    (start : Option Location) :
    (r.withPageSize pageSize).select ((r.withPageSize pageSize).readsAfter t start) =
      r.select (r.readsAfter t start) := by
  cases r <;> rfl

theorem length_readsAfter_le (r : Request) (t : Table) (start : Option Location) :
    (r.readsAfter t start).length ≤ t.size := by
  have hreads : (r.reads t).length ≤ t.entries.length := by
    unfold reads
    split_ifs
    · exact List.length_filter_le _ _
    · rw [List.length_reverse]
      exact List.length_filter_le _ _
  rw [← Table.length_entries]
  exact Nat.le_trans (readsAfter_sublist r t start).length_le hreads

end Request

end CursorPaging
