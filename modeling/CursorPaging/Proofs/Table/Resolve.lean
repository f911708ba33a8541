import CursorPaging.Pager
import CursorPaging.Proofs.Table.Batches
import CursorPaging.Proofs.Table.Stored

/-!
# Explicit keys resolved

A walk over explicit keys, asked for all that it has. If every key names a location, it hands out
the row of each key that has one, in the order of the keys, with as few calls as the table allows.
Else it hands out the rows of the calls before the first key that names none, fails, and the keys of
that call and all later ones are still pending.

* `Table.found`: the row of a key; `getAll_of_names`, `getAll_of_flaw`: the rows of keys, or the
  first fault among them;
* `exists_serves_until_flaw`: the calls before the first fault;
* **`keys_resolved`**.
-/

namespace CursorPaging

namespace Table

variable {t : Table} {keys before after : List ResumeKey} {key : ResumeKey}

/-- The row of a key, if the key names a location and has one there. -/
def found (t : Table) (key : ResumeKey) : Option Record := (t.get key).toOption.join

theorem getAll_of_names : ∀ {keys : List ResumeKey},
    (∀ key ∈ keys, ∃ loc, t.schema.Names key.fields loc) →
      t.getAll keys = .ok (keys.filterMap t.found)
  | [], _ => rfl
  | key :: rest, h => by
    obtain ⟨⟨loc, hnames⟩, hrest⟩ := List.forall_mem_cons.1 h
    have hget : t.get key = .ok (t.rowAt loc) := by
      rw [get, locate_eq_ok_iff.2 hnames]
      rfl
    have hfound : t.found key = t.rowAt loc := by
      rw [found, hget]
      rfl
    rw [getAll, hget, getAll_of_names hrest, List.filterMap_cons, hfound]
    cases t.rowAt loc <;> rfl

theorem getAll_of_flaw (before : List ResumeKey)
    (h : ∀ key ∈ before, ∃ loc, t.schema.Names key.fields loc)
    (hkey : ∀ loc, ¬ t.schema.Names key.fields loc) :
    ∃ fault, t.schema.Flaw key.fields fault ∧
      ∀ after, t.getAll (before ++ key :: after) = .error (t.invalid fault) := by
  rcases t.locate_cases key.fields with ⟨loc, hnames, -⟩ | ⟨fault, hflaw, hlocate⟩
  · exact absurd hnames (hkey loc)
  · refine ⟨fault, hflaw, fun after => ?_⟩
    have hget : t.get key = .error (t.invalid fault) := by
      rw [get, hlocate]
      rfl
    rw [getAll_append, getAll_of_names h, getAll, hget]
    rfl

/-- The calls before the first key that names no location are resolved, and the call that it is in
fails. -/
theorem exists_serves_until_flaw (hmax : 1 ≤ t.batchMax)
    (h : ∀ key ∈ before, ∃ loc, t.schema.Names key.fields loc)
    (hkey : ∀ loc, ¬ t.schema.Names key.fields loc) (after : List ResumeKey) :
    let keys := before ++ key :: after
    let resolved := before.length / t.batchMax * t.batchMax
    ∃ fault pages, t.schema.Flaw key.fields fault ∧
      Serves (⟨t, t.name, keys⟩ : BatchSource Table) pages (some (.fetch (t.invalid fault)))
        ⟨t, t.name, keys.drop resolved⟩ ∧
      pages.length = before.length / t.batchMax ∧
      pages.flatMap (·.records) = (keys.take resolved).filterMap t.found := by
  intro keys resolved
  have hresolved : resolved ≤ before.length := Nat.div_mul_le_self _ _
  have hbatch : before.length < resolved + t.batchMax := Nat.lt_div_mul_add hmax
  have htake : keys.take resolved = before.take resolved := List.take_append_of_le_length hresolved
  have hdrop : keys.drop resolved = before.drop resolved ++ key :: after :=
    List.drop_append_of_le_length hresolved
  obtain ⟨fault, hflaw, hfault⟩ := getAll_of_flaw (before.drop resolved)
    (fun key hmem => h key (List.mem_of_mem_drop hmem)) hkey
  have hcall : t.getAll ((keys.drop resolved).take t.batchMax) = .error (t.invalid fault) := by
    have hless : (before.drop resolved).length < t.batchMax := by
      rw [List.length_drop]
      omega
    obtain ⟨k, hk⟩ : ∃ k, t.batchMax - (before.drop resolved).length = k + 1 :=
      ⟨t.batchMax - (before.drop resolved).length - 1, by omega⟩
    rw [hdrop, List.take_append, List.take_of_length_le (Nat.le_of_lt hless), hk,
      List.take_succ_cons]
    exact hfault _
  have hmore : PageSource.hasMore (⟨t, t.name, keys.drop resolved⟩ : BatchSource Table) = true := by
    simp [PageSource.hasMore, hdrop]
  have hfirst : t.getAll (keys.take resolved) = .ok ((keys.take resolved).filterMap t.found) :=
    getAll_of_names fun key hmem => h key (List.mem_of_mem_take (htake ▸ hmem))
  obtain ⟨pages, hserves, hlength, hrecords⟩ := exists_serves_append hmax
    (before.length / t.batchMax) (by simp [keys]; omega) hfirst
    (.failure hmore (fetchPage_of_error hcall))
  rw [List.append_nil] at hserves
  exact ⟨fault, pages, hflaw, hserves, hlength, hrecords⟩

end Table

namespace Traversal

variable {α : Type}

/-- **Explicit keys are resolved once each, in order.** A walk gives the row of each key that has
one, in as many calls as the keys need, or up to the call of the first that names no location. -/
theorem keys_resolved (name : String) (schema : KeySchema) (pageSize batchMax : Nat)
    (edits : List Table.Edit) (keys : List ResumeKey) (codec : PositionCodec)
    (m : Record → Except PagingError α) (fuel max : Nat)
    (hfuel : keys.length ⌈/⌉ (Nat.max 1 batchMax) ≤ fuel) (hmax : keys.length < max) :
    let t := (Table.make name schema pageSize batchMax).editAll edits
    let batch := Nat.max 1 batchMax
    let walk := (Pager.make (BatchSource.make t ⟨name, keys⟩) codec m).iterate.1
    ((∀ key ∈ keys, ∃ loc, schema.Names key.fields loc) →
      ∃ u, walk.collect fuel max = some ((keys.filterMap t.found).map m, u) ∧
        u.phase = .exhausted ∧ u.pages = keys.length ⌈/⌉ batch ∧ u.source.pending = []) ∧
    ∀ before key after, keys = before ++ key :: after →
      (∀ key ∈ before, ∃ loc, schema.Names key.fields loc) →
      (∀ loc, ¬ schema.Names key.fields loc) →
        let resolved := before.length / batch * batch
        ∃ fault u, schema.Flaw key.fields fault ∧
          walk.collect fuel max = some (((keys.take resolved).filterMap t.found).map m ++
            [.error (.fetch (.invalidKey name fault))], u) ∧
          u.phase = .failed ∧ u.pages = before.length / batch ∧
          u.source.pending = keys.drop resolved := by
  intro t batch walk
  obtain ⟨hname, hschema, hbatch⟩ :=
    Table.editAll_sameShape (Table.make name schema pageSize batchMax) edits
  change t.name = name at hname
  change t.schema = schema at hschema
  change t.batchMax = batch at hbatch
  have hone : 1 ≤ t.batchMax := hbatch ▸ Nat.le_max_left 1 batchMax
  have hwalk : walk = start ⟨t, t.name, keys⟩ .unbounded codec m := by rw [hname]; rfl
  change keys.length ⌈/⌉ batch ≤ fuel at hfuel
  rw [hwalk, ← hbatch, ← hschema, ← hname]
  rw [← hbatch] at hfuel
  refine ⟨fun hnames => ?_, ?_⟩
  · obtain ⟨pages, hserves, hlength, hrecords⟩ :=
      Table.exists_serves_keys hone (Table.getAll_of_names hnames)
    have hfound : (keys.filterMap t.found).length ≤ keys.length := List.length_filterMap_le _ _
    obtain ⟨u, hcollect, hstopped, hphase⟩ := collect_of_serves hserves
      (show _ ≤ fuel by rw [hlength]; exact hfuel)
      (show _ < max by rw [hrecords]; exact Nat.lt_of_le_of_lt hfound hmax) codec m
    rw [hrecords, Option.toList_none, List.map_nil, List.append_nil] at hcollect
    exact ⟨u, hcollect, hphase, hstopped.pages.trans hlength, by rw [hstopped.source]⟩
  · rintro before key after rfl hnames hkey resolved
    obtain ⟨fault, pages, hflaw, hserves, hlength, hrecords⟩ :=
      Table.exists_serves_until_flaw hone hnames hkey after
    have hcalls : before.length / t.batchMax + 1 ≤ fuel := by
      refine Nat.le_trans ?_ hfuel
      rw [Nat.ceilDiv_eq_add_pred_div, ← Nat.add_div_right _ hone, List.length_append,
        List.length_cons]
      exact Nat.div_le_div_right (by omega)
    have hfound :
        (((before ++ key :: after).take resolved).filterMap t.found).length + 1 < max := by
      have hresolved : resolved ≤ before.length := Nat.div_mul_le_self _ _
      have hrows := List.length_filterMap_le t.found ((before ++ key :: after).take resolved)
      have htake := List.length_take_le resolved (before ++ key :: after)
      rw [List.length_append, List.length_cons] at hmax
      omega
    obtain ⟨u, hcollect, hstopped, hphase⟩ := collect_of_serves hserves
      (show _ ≤ fuel by rw [hlength]; exact hcalls)
      (show _ < max by rw [hrecords]; exact hfound) codec m
    rw [hrecords] at hcollect
    exact ⟨fault, u, hflaw, hcollect, hphase, hstopped.pages.trans hlength,
      by rw [hstopped.source]⟩

/-- Two keys a call: one key comes twice and one has no row; then the fourth of five keys is a
boolean. -/
theorem keys_resolved_two_a_call :
    let key (name : String) : ResumeKey := ⟨.ofList [("h", .text name)]⟩
    let row (name : String) : Record := ⟨(key name).fields⟩
    let flawed : ResumeKey := ⟨.ofList [("h", .boolean true)]⟩
    let t := (Table.make "t" ⟨"h", none⟩ 1 2).editAll [.insert (row "b"), .insert (row "a")]
    let walk (keys : List ResumeKey) : Traversal (BatchSource Table) Record :=
      (Pager.make (BatchSource.make t ⟨"t", keys⟩) .default .ok).iterate.1
    (∃ u, (walk [key "a", key "x", key "a", key "b"]).collect 2 5 =
        some ([.ok (row "a"), .ok (row "a"), .ok (row "b")], u) ∧
      u.phase = .exhausted ∧ u.pages = 2 ∧ u.source.pending = []) ∧
    ∃ fault u, (walk [key "a", key "x", key "b", flawed, key "a"]).collect 3 6 =
        some ([.ok (row "a"), .error (.fetch (.invalidKey "t" fault))], u) ∧
      u.phase = .failed ∧ u.pages = 1 ∧ u.source.pending = [key "b", flawed, key "a"] := by
  intro key row flawed t walk
  let schema : KeySchema := ⟨"h", none⟩
  let edits : List Table.Edit := [.insert (row "b"), .insert (row "a")]
  have hnames (name : String) : ∃ loc, schema.Names (key name).fields loc :=
    ⟨(.text name, .null),
      { hash := rfl, hashStorable := .inl rfl, range := nofun, noRange := fun _ => rfl }⟩
  have hflawed (loc : Location) : ¬ schema.Names flawed.fields loc := fun hnames => by
    have hhash : some (Scalar.boolean true) = some loc.1 := hnames.hash
    cases Option.some.inj hhash ▸ hnames.hashStorable with
    | inl htext => cases htext
    | inr hnumber => cases hnumber
  have hvalid (names : List String) : ∀ k ∈ names.map key, ∃ loc, schema.Names k.fields loc :=
    List.forall_mem_map.2 fun name _ => hnames name
  constructor
  · obtain ⟨u, hcollect, hphase, hpages, hpending⟩ := (keys_resolved "t" schema 1 2 edits
      (["a", "x", "a", "b"].map key) .default .ok 2 5 (by decide) (by decide)).1 (hvalid _)
    have hfound : (["a", "x", "a", "b"].map key).filterMap t.found =
        [row "a", row "a", row "b"] := by decide +kernel
    rw [hfound] at hcollect
    exact ⟨u, hcollect, hphase, hpages.trans (by decide), hpending⟩
  · obtain ⟨fault, u, -, hcollect, hphase, hpages, hpending⟩ := (keys_resolved "t" schema 1 2 edits
      (["a", "x", "b"].map key ++ flawed :: [key "a"]) .default .ok 3 6 (by decide)
      (by decide)).2 _ _ _ rfl (hvalid _) hflawed
    have hfound : ((["a", "x", "b"].map key ++ flawed :: [key "a"]).take
        ((["a", "x", "b"].map key).length / Nat.max 1 2 * Nat.max 1 2)).filterMap t.found =
          [row "a"] := by decide +kernel
    rw [hfound] at hcollect
    exact ⟨fault, u, hcollect, hphase, hpages.trans (by decide),
      hpending.trans (by decide +kernel)⟩

end Traversal

end CursorPaging
