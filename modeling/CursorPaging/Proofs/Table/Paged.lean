import CursorPaging.Proofs.Table.PageCount
import CursorPaging.Proofs.Traversal.Paged

/-!
# Sources over a table in whole pages

Queries and scans without filters read the rows of a table in pages of the size that they ask for,
and batches of keys that all have rows in pages of the size that the table allows.

* `WalkSource.paged_of_page`: one page; `Request.Pages.paged`: all of them;
* **`WalkSource.paged`**: a query or a scan; **`Table.paged_keys`**: explicit keys.
-/

namespace CursorPaging

variable {r : Request} {t : Table} {size : Nat} {rows : List (Location × Record)}

/-! ## Queries and scans -/

theorem WalkSource.paged_of_page {s : WalkSource Table} {output : PageOutput}
    (hpage : s.request.page s.store s.cursor.startKey = (.ok output, s.store))
    (houtput : Request.PageOf t size s.request.filters rows output)
    (hfilters : s.request.filters = []) (hmore : s.cursor.hasMore = true)
    (hrest : Paged size (s.put s.store (s.cursor.advance output)) ((rows.drop size).map (·.2))) :
    Paged size s (rows.map (·.2)) := by
  have hfetch := fetchPage_of_page hpage
  refine .page ((hasMore_eq s).trans hmore) hfetch ?_ (truthful _ _ _ hfetch) (fun hlong => ?_) ?_
  · rw [StartCursor.page, houtput.items, hfilters, List.map_take]
    exact List.filter_eq_self.2 fun _ _ => rfl
  · rw [hasMore_eq, cursor_put, StartCursor.hasMore, StartCursor.advance] at hlong
    have hshort := houtput.lastKey.1 hlong
    rw [List.length_take] at hshort
    rw [List.length_map]
    omega
  · rwa [← List.map_drop]

theorem Request.Pages.paged {start : Option ResumeKey} {outputs : List PageOutput}
    (h : Pages r t size start rows outputs) :
    ∀ {s : WalkSource Table}, r.filters = [] → s.store = t → s.request = r →
      s.cursor.startKey = start → s.cursor.hasMore = true → Paged size s (rows.map (·.2)) := by
  induction h with
  | @last start rows output page pageOf lastKey =>
    rintro s hfilters rfl rfl rfl hmore
    -- the last page has read all rows that were left
    have hall : rows.drop size = [] := by
      have hlast := mt pageOf.lastKey.2 (by rw [lastKey]; exact Bool.false_ne_true)
      rw [List.length_take] at hlast
      rw [List.drop_eq_nil_iff]
      omega
    refine WalkSource.paged_of_page page pageOf hfilters hmore ?_
    rw [hall]
    refine .dry ?_
    rw [WalkSource.hasMore_eq, WalkSource.cursor_put, StartCursor.hasMore, StartCursor.advance,
      lastKey]
    rfl
  | @more start rows output key later page pageOf lastKey rest ih =>
    rintro s hfilters rfl rfl rfl hmore
    refine WalkSource.paged_of_page page pageOf hfilters hmore
      (ih hfilters (WalkSource.store_put ..) (WalkSource.request_put ..) ?_ ?_)
    · rw [WalkSource.cursor_put]
      exact lastKey
    · rw [WalkSource.cursor_put, StartCursor.hasMore, StartCursor.advance, lastKey]
      rfl

/-- **A query or a scan without filters** gives the rows that are left in whole pages. -/
theorem WalkSource.paged (h : t.WellFormed) (hfits : r.Fits t) (hfilters : r.filters = [])
    {start : Option Location} {s : WalkSource Table} (hs : s.At r t start)
    (hmore : s.cursor.hasMore = true) :
    Paged (t.effectivePageSize r.pageSize) s ((r.readsAfter t start).map (·.2)) := by
  have hsuffix : r.readsAfter t start <:+ r.reads t :=
    Request.readsAfter_suffix h fun a ha => hs.start.sound ha
  obtain ⟨output, hread, houtput⟩ :=
    Request.readPage_pageOf (Nat.le_max_left 1 (r.pageSize.getD t.pageSize))
      (fun e he => Request.locates_of_mem_reads h (hsuffix.subset he)) r.filters
  have hpage : r.page t s.cursor.startKey = (.ok output, t) := by
    rw [Request.page_eq_readPage h hfits hs.start, Table.effectivePageSize, hread]
  obtain ⟨outputs, hpages⟩ := Request.exists_pages h hfits hsuffix hpage houtput
  exact hpages.paged hfilters hs.store hs.request rfl hmore

/-! ## Explicit keys -/

/-- **Keys that all have rows** are resolved in whole batches. -/
theorem Table.paged_keys {ι : Type} {key : ι → ResumeKey} {row : ι → Record}
    (hmax : 1 ≤ t.batchMax) : ∀ {indices : List ι},
      (∀ i ∈ indices, t.get (key i) = .ok (some (row i))) →
        Paged t.batchMax (⟨t, t.name, indices.map key⟩ : BatchSource Table) (indices.map row) := by
  intro indices
  generalize hlength : indices.length = length
  induction length using Nat.strongRecOn generalizing indices with
  | ind length ih =>
    intro h
    rcases Nat.eq_zero_or_pos length with hzero | hpos
    · obtain rfl := List.eq_nil_of_length_eq_zero (hlength.trans hzero)
      exact .dry rfl
    · have hfirst : t.getAll ((indices.map key).take t.batchMax) =
          .ok ((indices.take t.batchMax).map row) := by
        rw [← List.map_take]
        exact getAll_of_get fun i hi => h i (List.mem_of_mem_take hi)
      have hlater := ih (indices.drop t.batchMax).length (by rw [List.length_drop]; omega) rfl
        fun i hi => h i (List.mem_of_mem_drop hi)
      rw [List.map_drop, List.map_drop] at hlater
      refine .page ?_ (fetchPage_keys hfirst) (List.map_take ..) rfl (fun hlong => ?_) hlater
      · simpa [PageSource.hasMore] using List.length_pos_iff.1 (hlength ▸ hpos)
      · have hleft : (indices.map key).drop t.batchMax ≠ [] := by
          simpa [PageSource.hasMore] using hlong
        rw [Ne, List.drop_eq_nil_iff, List.length_map] at hleft
        rw [List.length_map]
        omega

end CursorPaging
