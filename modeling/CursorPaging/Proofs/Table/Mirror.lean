import Mathlib.Data.Finset.Card
import CursorPaging.Proofs.Table.Rows

/-!
# Tables as finite maps

A table stands for a map from locations to rows. Each call reads the map at the one location that
its key fields name, an accepted edit changes it there and nowhere else, and a refused one not at
all.

* `LeftBy`: the row that edits leave at a location; `leftBy_concat`;
* `insert_eq`, `delete_eq`, `get_eq`: what calls answer; `calls_refused`: which ones are refused;
* `rowAt_edit`, **`rowAt_editAll`**: edits of a new table leave there what is found there;
* `exists_live`, `isEmpty_iff_size`: the size of the map;
* `query_refused`, `scan_refused`: no row is stored without its key;
* `Mirrors`, **`editAll_mirrors`**: a table that edits lead to is the map of what they leave.
-/

namespace CursorPaging

namespace Table

variable {t : Table} {schema : KeySchema} {edits : List Edit} {e : Edit} {row : Record}
  {loc : Location}

/-- The row that edits leave at a location: that of an insertion there, after which no edit is for
this location. -/
def LeftBy (schema : KeySchema) (edits : List Edit) (loc : Location) (row : Record) : Prop :=
  ∃ earlier later, edits = earlier ++ .insert row :: later ∧ schema.Names row.fields loc ∧
    ∀ e ∈ later, ¬ schema.Names e.fields loc

theorem not_leftBy_nil : ¬ LeftBy schema [] loc row := by
  rintro ⟨earlier, later, hedits, -⟩
  simp at hedits

/-- The last edit decides for its own location, and the ones before it for all others. -/
theorem leftBy_concat : LeftBy schema (edits ++ [e]) loc row ↔
    e = .insert row ∧ schema.Names e.fields loc ∨
      LeftBy schema edits loc row ∧ ¬ schema.Names e.fields loc := by
  constructor
  · rintro ⟨earlier, later, hedits, hnames, hlater⟩
    rcases List.eq_nil_or_concat later with rfl | ⟨later, last, rfl⟩
    · obtain ⟨-, hlast⟩ := List.append_inj' hedits rfl
      obtain rfl : e = .insert row := List.singleton_inj.1 hlast
      exact .inl ⟨rfl, hnames⟩
    · rw [List.concat_eq_append, ← List.cons_append, ← List.append_assoc] at hedits
      obtain ⟨rfl, hlast⟩ := List.append_inj' hedits rfl
      obtain rfl : e = last := List.singleton_inj.1 hlast
      refine .inr ⟨⟨earlier, later, rfl, hnames, fun e' he' => hlater e' ?_⟩, hlater e ?_⟩
      · simp [he']
      · simp
  · rintro (⟨rfl, hnames⟩ | ⟨⟨earlier, later, rfl, hnames, hlater⟩, hnot⟩)
    · exact ⟨edits, [], rfl, hnames, fun _ he => absurd he List.not_mem_nil⟩
    · refine ⟨earlier, later ++ [e], by simp, hnames, fun e' he' => ?_⟩
      rcases List.mem_append.1 he' with he' | he'
      · exact hlater e' he'
      · rw [List.mem_singleton.1 he']
        exact hnot

/-! ## Calls -/

theorem get_eq {key : ResumeKey} (h : t.schema.Names key.fields loc) :
    t.get key = .ok (t.rowAt loc) := by
  rw [get, locate_eq_ok_iff.2 h]
  rfl

theorem insert_eq (h : t.schema.Names row.fields loc) :
    t.insert row = .ok (t.rowAt loc, t.edit (.insert row)) := by
  obtain ⟨hash, range⟩ := loc
  rw [edit, insert, locate_eq_ok_iff.2 h]

theorem delete_eq {key : ResumeKey} (h : t.schema.Names key.fields loc) :
    t.delete key = .ok (t.rowAt loc, t.edit (.delete key)) := by
  obtain ⟨hash, range⟩ := loc
  rw [edit, delete, locate_eq_ok_iff.2 h]
  cases hrows : Ordered.get? hash t.partitions with
  | none =>
    simp only [rowAt, partition, hrows]
    rfl
  | some rows => simp only [rowAt, partition, hrows, Option.getD_some]

theorem calls_refused {fields : FieldMap} (h : ∀ loc, ¬ t.schema.Names fields loc) :
    ∃ fault, t.schema.Flaw fields fault ∧
      t.get ⟨fields⟩ = .error (.invalidKey t.name fault) ∧
      t.insert ⟨fields⟩ = .error (.invalidKey t.name fault) ∧
      t.delete ⟨fields⟩ = .error (.invalidKey t.name fault) ∧
      t.edit (.insert ⟨fields⟩) = t ∧ t.edit (.delete ⟨fields⟩) = t := by
  rcases t.locate_cases fields with ⟨loc, hnames, -⟩ | ⟨fault, hflaw, hlocate⟩
  · exact absurd hnames (h loc)
  · have hinsert : t.insert ⟨fields⟩ = .error (t.invalid fault) := by rw [insert, hlocate]
    have hdelete : t.delete ⟨fields⟩ = .error (t.invalid fault) := by rw [delete, hlocate]
    refine ⟨fault, hflaw, ?_, hinsert, hdelete, ?_, ?_⟩
    · rw [get, hlocate]
      rfl
    · rw [edit, hinsert]
    · rw [edit, hdelete]

/-! ## Edits -/

/-- **An edit** decides which row is at the location that it is for, and leaves all others. -/
theorem rowAt_edit (h : t.WellFormed) (he : e.Finite t.schema) (loc : Location) (row : Record) :
    (t.edit e).rowAt loc = some row ↔ e = .insert row ∧ t.schema.Names e.fields loc ∨
      t.rowAt loc = some row ∧ ¬ t.schema.Names e.fields loc := by
  by_cases hnames : t.schema.Names e.fields loc
  · have hlocate := locate_eq_ok_iff.2 hnames
    cases e with
    | insert new =>
      rw [rowAt_insert h he hlocate (insert_eq hnames), if_pos rfl]
      simp [hnames]
    | delete key =>
      rw [rowAt_delete h hlocate (delete_eq hnames), if_pos rfl]
      simp [hnames]
  · rw [rowAt_edit_of_ne h he fun hlocate => hnames (locate_eq_ok_iff.1 hlocate)]
    simp [hnames]

section New

variable (name : String) (schema : KeySchema) (pageSize batchMax : Nat) (edits : List Edit)
  (hedits : ∀ e ∈ edits, e.Finite schema)

theorem schema_editAll_make :
    ((make name schema pageSize batchMax).editAll edits).schema = schema :=
  (editAll_sameShape _ edits).schema

include hedits

theorem wellFormed_editAll_make : ((make name schema pageSize batchMax).editAll edits).WellFormed :=
  wellFormed_editAll (wellFormed_make name schema pageSize batchMax) hedits

/-- **Edits of a new table leave at each location what is found there.** -/
theorem rowAt_editAll (loc : Location) (row : Record) :
    ((make name schema pageSize batchMax).editAll edits).rowAt loc = some row ↔
      LeftBy schema edits loc row := by
  induction edits using List.reverseRecOn generalizing row with
  | nil =>
    refine ⟨fun h => ?_, fun h => absurd h not_leftBy_nil⟩
    cases h
  | append_singleton edits e ih =>
    obtain ⟨hearlier, hlast⟩ := List.forall_mem_append.1 hedits
    have hschema := schema_editAll_make name schema pageSize batchMax edits
    have hfinite : e.Finite ((make name schema pageSize batchMax).editAll edits).schema := by
      rw [hschema]
      exact hlast e (List.mem_singleton_self e)
    rw [editAll, List.foldl_append, leftBy_concat, ← ih hearlier]
    have hedit := rowAt_edit
      (wellFormed_editAll_make name schema pageSize batchMax edits hearlier) hfinite loc row
    rw [hschema] at hedit
    exact hedit

end New

/-! ## The size -/

theorem exists_live (h : t.WellFormed) : ∃ live : Finset Location,
    (∀ loc, loc ∈ live ↔ ∃ row, t.rowAt loc = some row) ∧ t.size = live.card := by
  have hnodup : (t.entries.map (·.1)).Nodup := by
    rw [List.Nodup, List.pairwise_map]
    refine (entries_sorted h).imp fun {a b} hab heq => ?_
    rw [heq] at hab
    exact Location.before_irrefl _ hab
  refine ⟨(t.entries.map (·.1)).toFinset, fun loc => ?_, ?_⟩
  · simp [rowAt_eq_some_iff h]
  · rw [List.toFinset_card_of_nodup hnodup, List.length_map, length_entries]

theorem isEmpty_iff_size (h : t.WellFormed) : t.isEmpty = true ↔ t.size = 0 := by
  rw [isEmpty, List.isEmpty_iff, size]
  constructor
  · intro hnil
    rw [hnil]
    rfl
  · intro hzero
    cases hpartitions : t.partitions with
    | nil => rfl
    | cons p rest =>
      rw [hpartitions, List.map_cons, List.sum_cons, Nat.add_eq_zero_iff] at hzero
      have hp : p ∈ t.partitions := by simp [hpartitions]
      exact absurd (List.length_eq_zero_iff.1 hzero.1) (h.nonempty p hp)

/-! ## Pages -/

theorem readPage_queryRows (h : t.WellFormed) (q : QueryRequest) (range : Option Scalar)
    (size : Nat)
    (filters : List Filter) :
    ∃ output, t.readPage (t.queryRows q range) size filters = .ok output := by
  refine readPage_ok fun row hrow field hfield => ?_
  obtain ⟨e, he, rfl⟩ := mem_queryRows hrow
  exact (h.located_partition he).contains hfield

theorem readPage_scanRows (h : t.WellFormed) (start : Option Location) (size : Nat)
    (filters : List Filter) :
    ∃ output, t.readPage (t.scanRows start) size filters = .ok output := by
  refine readPage_ok fun row hrow field hfield => ?_
  obtain ⟨p, hp, e, he, rfl⟩ := mem_scanRows hrow
  exact (h.located p hp e he).contains hfield

theorem query_refused (h : t.WellFormed) {q : QueryRequest} {start : Option ResumeKey}
    {e : StoreError} (herror : t.query q start = .error e) :
    t.checkName q.table = .error e ∨
      (q.range.isSome = true ∧ t.schema.rangeKey = none ∧ e = .invalidKey t.name .noRangeKey) ∨
        t.queryStart q start = .error e := by
  rcases query_cases t q start with ⟨e', hname, heq⟩ | ⟨hrange, hnone, heq⟩ | ⟨e', hstart, heq⟩ |
    ⟨range, -, heq⟩
  all_goals rw [heq] at herror
  · cases herror
    exact .inl hname
  · cases herror
    exact .inr (.inl ⟨hrange, hnone, rfl⟩)
  · cases herror
    exact .inr (.inr hstart)
  · obtain ⟨output, hpage⟩ :=
      readPage_queryRows h q range (t.effectivePageSize q.pageSize) q.filters
    rw [hpage] at herror
    cases herror

theorem scan_refused (h : t.WellFormed) {s : ScanRequest} {start : Option ResumeKey}
    {e : StoreError} (herror : t.scan s start = .error e) :
    t.checkName s.table = .error e ∨
      ∃ key, start = some key ∧ t.locate key.fields = .error e := by
  rcases scan_cases t s start with ⟨e', hname, heq⟩ | ⟨key, e', hstart, hlocate, heq⟩ | ⟨loc, heq⟩
  all_goals rw [heq] at herror
  · cases herror
    exact .inl hname
  · cases herror
    exact .inr ⟨key, hstart, hlocate⟩
  · obtain ⟨output, hpage⟩ := readPage_scanRows h loc (t.effectivePageSize s.pageSize) s.filters
    rw [hpage] at herror
    cases herror

/-! ## The map -/

/-- A table that is the map of what edits leave at each location. -/
structure Mirrors (t : Table) (schema : KeySchema) (edits : List Edit) : Prop where
  get : ∀ {key : ResumeKey} {loc : Location}, schema.Names key.fields loc →
    ∃ found, t.get key = .ok found ∧ ∀ row, found = some row ↔ LeftBy schema edits loc row
  insert : ∀ {row : Record} {loc : Location}, schema.Names row.fields loc →
    ∃ replaced, t.insert row = .ok (replaced, t.edit (.insert row)) ∧
      ∀ old, replaced = some old ↔ LeftBy schema edits loc old
  delete : ∀ {key : ResumeKey} {loc : Location}, schema.Names key.fields loc →
    ∃ removed, t.delete key = .ok (removed, t.edit (.delete key)) ∧
      ∀ old, removed = some old ↔ LeftBy schema edits loc old
  others : ∀ {e : Edit} {key : ResumeKey} {loc : Location}, e.Finite schema →
    schema.Names key.fields loc → ¬ schema.Names e.fields loc → (t.edit e).get key = t.get key
  refused : ∀ {fields : FieldMap}, (∀ loc, ¬ schema.Names fields loc) →
    ∃ fault, schema.Flaw fields fault ∧
      t.get ⟨fields⟩ = .error (.invalidKey t.name fault) ∧
      t.insert ⟨fields⟩ = .error (.invalidKey t.name fault) ∧
      t.delete ⟨fields⟩ = .error (.invalidKey t.name fault) ∧
      t.edit (.insert ⟨fields⟩) = t ∧ t.edit (.delete ⟨fields⟩) = t
  size : ∃ live : Finset Location, (∀ loc, loc ∈ live ↔ ∃ row, LeftBy schema edits loc row) ∧
    t.size = live.card
  isEmpty : t.isEmpty = true ↔ t.size = 0
  nonempty : ∀ p ∈ t.partitions, p.2 ≠ []
  ascending : ∀ hash start, (walk (t.partition hash) start true).Pairwise fun a b =>
    a.1.order b.1 = .lt
  descending : ∀ hash start, (walk (t.partition hash) start false).Pairwise fun a b =>
    b.1.order a.1 = .lt
  located : ∀ p ∈ t.partitions, ∀ e ∈ p.2, schema.Names e.2.fields (p.1, e.1)
  queryPage : ∀ q range size filters, ∃ output,
    t.readPage (t.queryRows q range) size filters = .ok output
  scanPage : ∀ loc size filters, ∃ output, t.readPage (t.scanRows loc) size filters = .ok output
  query : ∀ {q : QueryRequest} {start : Option ResumeKey} {e : StoreError},
    t.query q start = .error e → t.checkName q.table = .error e ∨
      (q.range.isSome = true ∧ schema.rangeKey = none ∧ e = .invalidKey t.name .noRangeKey) ∨
        t.queryStart q start = .error e
  scan : ∀ {s : ScanRequest} {start : Option ResumeKey} {e : StoreError},
    t.scan s start = .error e → t.checkName s.table = .error e ∨
      ∃ key, start = some key ∧ t.locate key.fields = .error e

/-- **Tables are finite maps.** After any insertions and deletions every call answers as on the map
of what these leave at each location. -/
theorem editAll_mirrors (name : String) (schema : KeySchema) (pageSize batchMax : Nat)
    (edits : List Edit) (hedits : ∀ e ∈ edits, e.Finite schema) :
    ((make name schema pageSize batchMax).editAll edits).Mirrors schema edits := by
  have hrows {loc : Location} {row : Record} :=
    rowAt_editAll name schema pageSize batchMax edits hedits loc row
  have hschema := schema_editAll_make name schema pageSize batchMax edits
  have h := wellFormed_editAll_make name schema pageSize batchMax edits hedits
  generalize (make name schema pageSize batchMax).editAll edits = t at hrows hschema h
  subst hschema
  refine
    { get := fun hnames => ⟨_, get_eq hnames, fun _ => hrows⟩
      insert := fun hnames => ⟨_, insert_eq hnames, fun _ => hrows⟩
      delete := fun hnames => ⟨_, delete_eq hnames, fun _ => hrows⟩
      others := ?_
      refused := calls_refused
      size := ?_
      isEmpty := isEmpty_iff_size h
      nonempty := h.nonempty
      ascending := fun hash start => (walk_pairwise h hash start).1
      descending := fun hash start => (walk_pairwise h hash start).2
      located := fun p hp e he => (h.located p hp e he).names
      queryPage := readPage_queryRows h
      scanPage := readPage_scanRows h
      query := query_refused h
      scan := scan_refused h }
  · intro e key loc he hnames hother
    have hnames' : (t.edit e).schema.Names key.fields loc := by
      rw [(edit_sameShape t e).schema]
      exact hnames
    rw [get_eq hnames, get_eq hnames', rowAt_edit_of_ne h he]
    exact fun hlocate => hother (locate_eq_ok_iff.1 hlocate)
  · obtain ⟨live, hlive, hcard⟩ := exists_live h
    exact ⟨live, fun loc => (hlive loc).trans (exists_congr fun _ => hrows), hcard⟩

/-- A row that is replaced, one that is taken out, and one without a range value that is refused. -/
theorem editAll_mirrors_replaced_row :
    let row (range c : String) : Record :=
      ⟨.ofList [("h", .text "a"), ("r", .number range), ("c", .text c)]⟩
    let schema : KeySchema := ⟨"h", some "r"⟩
    let edits : List Edit := [.insert (row "10" "x"), .insert (row "9" "y"),
      .insert (row "10" "z"), .insert ⟨.ofList [("h", .text "a")]⟩, .delete ⟨(row "9" "y").fields⟩]
    let t := (make "t" schema 2 1).editAll edits
    t.Mirrors schema edits ∧ t.size = 1 ∧
      LeftBy schema edits (.text "a", .number "10") (row "10" "z") := by
  intro row schema edits t
  have hmirrors : t.Mirrors schema edits :=
    editAll_mirrors "t" schema 2 1 edits (by decide +kernel)
  have hnames : schema.Names (row "10" "z").fields (.text "a", .number "10") :=
    { hash := by decide +kernel
      hashStorable := .inl rfl
      range := fun field hfield => by
        cases hfield
        exact ⟨by decide +kernel, .inr rfl⟩
      noRange := nofun }
  have hnamed : schema.Names (ResumeKey.mk (row "10" "z").fields).fields _ := hnames
  obtain ⟨found, hget, hfound⟩ := hmirrors.get hnamed
  have hrow : t.get ⟨(row "10" "z").fields⟩ = .ok (some (row "10" "z")) := by decide +kernel
  exact ⟨hmirrors, by decide +kernel, (hfound _).1 (Except.ok.inj (hget.symm.trans hrow))⟩

end Table

end CursorPaging
