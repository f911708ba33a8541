import Mathlib.Algebra.Order.Floor.Div
import CursorPaging.Proofs.Traversal.Served
import CursorPaging.Table

/-!
# Batches of keys

A source over explicit keys sends all that are pending, and a table resolves the first of them. So
the keys are resolved once each, in order, over as many calls as needed.

* `getAll_append`: the rows of some keys and then of others; `getAll_of_get`: of keys that have
  rows;
* `batchGet_eq`, `fetchPage_keys`: one call; `fetchPage_of_error`: one that fails;
* **`exists_serves_append`**, `exists_serves_keys`: all calls that a source makes.
-/

namespace CursorPaging

namespace Table

variable {t : Table} {keys : List ResumeKey} {records : List Record}

theorem getAll_append (t : Table) (others : List ResumeKey) : ∀ keys : List ResumeKey,
    t.getAll (keys ++ others) =
      (t.getAll keys).bind fun records => (t.getAll others).map (records ++ ·)
  | [] => by
    rw [List.nil_append, getAll]
    cases t.getAll others <;> rfl
  | key :: rest => by
    rw [List.cons_append, getAll, getAll, getAll_append t others rest]
    cases t.get key with
    | error e => rfl
    | ok row =>
      cases t.getAll rest with
      | error e => rfl
      | ok records =>
        cases t.getAll others with
        | error e => rfl
        | ok more => exact congrArg Except.ok (List.append_assoc _ _ _).symm

theorem getAll_append_ok {others : List ResumeKey} (h : t.getAll (keys ++ others) = .ok records) :
    ∃ first rest, t.getAll keys = .ok first ∧ t.getAll others = .ok rest ∧
      first ++ rest = records := by
  rw [getAll_append] at h
  rcases hfirst : t.getAll keys with e | first <;> rw [hfirst] at h
  · cases h
  · rcases hrest : t.getAll others with e | rest <;> rw [hrest] at h
    · cases h
    · exact ⟨first, rest, rfl, rfl, Except.ok.inj h⟩

theorem getAll_of_get {ι : Type} {key : ι → ResumeKey} {row : ι → Record} :
    ∀ {indices : List ι}, (∀ i ∈ indices, t.get (key i) = .ok (some (row i))) →
      t.getAll (indices.map key) = .ok (indices.map row)
  | [], _ => rfl
  | i :: rest, h => by
    obtain ⟨hi, hrest⟩ := List.forall_mem_cons.1 h
    rw [List.map_cons, getAll, hi, getAll_of_get hrest]
    rfl

theorem batchGet_eq (h : t.getAll (keys.take t.batchMax) = .ok records) :
    t.batchGet ⟨t.name, keys⟩ = .ok ⟨records, keys.drop t.batchMax⟩ := by
  have hname : t.checkName t.name = .ok () := if_pos rfl
  rw [batchGet, hname]
  change (t.getAll (keys.take t.batchMax)).bind _ = _
  rw [h]
  rfl

theorem fetchPage_keys (h : t.getAll (keys.take t.batchMax) = .ok records) :
    PageSource.fetchPage (⟨t, t.name, keys⟩ : BatchSource Table) =
      (.ok ⟨records, .pending (keys.drop t.batchMax)⟩, ⟨t, t.name, keys.drop t.batchMax⟩) := by
  have hanswer : BatchStore.batchGet t ⟨t.name, keys⟩ =
      (.ok ⟨records, keys.drop t.batchMax⟩, t) := Prod.ext (batchGet_eq h) rfl
  change BatchSource.fetchPage _ = _
  rw [BatchSource.fetchPage, hanswer]

theorem fetchPage_of_error {e : StoreError} (h : t.getAll (keys.take t.batchMax) = .error e) :
    PageSource.fetchPage (⟨t, t.name, keys⟩ : BatchSource Table) =
      (.error (.fetch e), ⟨t, t.name, keys⟩) := by
  have hname : t.checkName t.name = .ok () := if_pos rfl
  have hanswer : BatchStore.batchGet t ⟨t.name, keys⟩ = (.error e, t) := by
    refine Prod.ext ?_ rfl
    change t.batchGet ⟨t.name, keys⟩ = .error e
    rw [batchGet, hname]
    change (t.getAll (keys.take t.batchMax)).bind _ = _
    rw [h]
    rfl
  change BatchSource.fetchPage _ = _
  rw [BatchSource.fetchPage, hanswer]

/-- **Calls that are resolved**, one after the other: their rows in the order of the keys, and then
what the source gives for the keys that are left. -/
theorem exists_serves_append (hmax : 1 ≤ t.batchMax) {later : List Page}
    {failure : Option PagingError} {final : BatchSource Table} : ∀ (n : Nat)
    {keys : List ResumeKey} {records : List Record}, n * t.batchMax < keys.length + t.batchMax →
      t.getAll (keys.take (n * t.batchMax)) = .ok records →
        Serves ⟨t, t.name, keys.drop (n * t.batchMax)⟩ later failure final →
          ∃ pages, Serves (⟨t, t.name, keys⟩ : BatchSource Table) (pages ++ later) failure final ∧
            pages.length = n ∧ pages.flatMap (·.records) = records
  | 0, keys, records, _, hrecords, hlater => by
    rw [Nat.zero_mul, List.take_zero] at hrecords
    rw [Nat.zero_mul, List.drop_zero] at hlater
    exact ⟨[], hlater, rfl, Except.ok.inj hrecords⟩
  | n + 1, keys, records, hlength, hrecords, hlater => by
    rw [Nat.succ_mul] at hlength
    rw [Nat.succ_mul, Nat.add_comm, List.take_add] at hrecords
    rw [Nat.succ_mul, Nat.add_comm, ← List.drop_drop] at hlater
    obtain ⟨first, others, hfirst, hothers, rfl⟩ := getAll_append_ok hrecords
    have hleft : (keys.drop t.batchMax).length = keys.length - t.batchMax := List.length_drop
    obtain ⟨pages, hserves, hpages, rfl⟩ :=
      exists_serves_append hmax n (by omega) hothers hlater
    have hmore : PageSource.hasMore (⟨t, t.name, keys⟩ : BatchSource Table) = true := by
      have hnil : keys ≠ [] := List.length_pos_iff.1 (by omega)
      simpa [PageSource.hasMore] using hnil
    exact ⟨_ :: pages, .page hmore (fetchPage_keys hfirst) rfl hserves, congrArg Nat.succ hpages,
      rfl⟩

/-- **Keys that are all resolved** take one call for as many as a call can resolve. -/
theorem exists_serves_keys (hmax : 1 ≤ t.batchMax) (h : t.getAll keys = .ok records) :
    ∃ pages, Serves (⟨t, t.name, keys⟩ : BatchSource Table) pages none ⟨t, t.name, []⟩ ∧
      pages.length = keys.length ⌈/⌉ t.batchMax ∧ pages.flatMap (·.records) = records := by
  have hall : keys.length ≤ keys.length ⌈/⌉ t.batchMax * t.batchMax := by
    rw [Nat.mul_comm]
    exact (ceilDiv_le_iff_le_mul hmax).1 (Nat.le_refl _)
  have hlast : keys.length ⌈/⌉ t.batchMax * t.batchMax < keys.length + t.batchMax := by
    have hle := Nat.div_mul_le_self (keys.length + t.batchMax - 1) t.batchMax
    rw [Nat.ceilDiv_eq_add_pred_div]
    omega
  have hdry : Serves (⟨t, t.name, []⟩ : BatchSource Table) [] none ⟨t, t.name, []⟩ := .dry rfl
  rw [← List.take_of_length_le hall] at h
  rw [← List.drop_eq_nil_of_le hall] at hdry
  obtain ⟨pages, hserves, hlength, hrecords⟩ := exists_serves_append hmax _ hlast h hdry
  rw [List.append_nil, List.drop_eq_nil_of_le hall] at hserves
  exact ⟨pages, hserves, hlength, hrecords⟩

end Table

end CursorPaging
