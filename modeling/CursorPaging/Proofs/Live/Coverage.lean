import CursorPaging.Proofs.Live.Session

/-!
# What a walk has covered

A walk over a table that changes has covered all locations up to its cursor. It found there the rows
that it found, each at the time of its page, and passed over no location that had a matching row all
the time.

* `Table.Live`: a table that edits led to; `Request.Matches`, `Request.Behind`;
* **`Coverage`**: the rows that a walk found and the locations that it covered;
* `Coverage.empty`, **`Coverage.page`**, **`Coverage.restart`**: before any page, after one more
  page, and after a restart at one of the rows.
-/

namespace CursorPaging

/-- A table that a request fits, after some of the edits that may come in. -/
structure Table.Live (u : Table) (r : Request) (t : Table) (allowed : List Table.Edit) : Prop where
  wellFormed : u.WellFormed
  fits : r.Fits u
  schema : u.schema = t.schema
  made : ∃ edits, edits ⊆ allowed ∧ u = t.editAll edits

namespace Request

/-- A row that is stored at a location, where a request reads it and selects it. -/
structure Matches (r : Request) (t : Table) (loc : Location) (row : Record) : Prop where
  stored : t.rowAt loc = some row
  covers : r.covers loc = true
  passes : passesAll r.filters row = true

/-- A location that does not lie after the cursor of a walk: up to the start key, or anywhere once
the last page was read. -/
def Behind (r : Request) (start : Option Location) (fetched : Bool) (loc : Location) : Prop :=
  match start with
  | none => fetched = true
  | some a => ¬ r.Ahead a loc

/-- The rows of a piece that was read which pass the filters. -/
def selected (r : Request) (rows : List (Location × Record)) : List (Location × Record) :=
  rows.filter (passesAll r.filters ·.2)

variable {r : Request} {t : Table} {loc : Location} {row : Record}

theorem map_selected (r : Request) (rows : List (Location × Record)) :
    (r.selected rows).map (·.2) = r.select rows := by
  rw [select, List.filter_map]
  rfl

theorem Matches.mem_reads (h : r.Matches t loc row) (ht : t.WellFormed) : (loc, row) ∈ r.reads t :=
  mem_reads_iff.2 ⟨(Table.rowAt_eq_some_iff ht).1 h.stored, h.covers⟩

theorem Matches.sound (h : r.Matches t loc row) (ht : t.WellFormed) : loc.Sound :=
  (locates_of_mem_reads ht (h.mem_reads ht)).sound

theorem matches_of_mem_selected (ht : t.WellFormed) {piece : List (Location × Record)}
    (hpiece : piece ⊆ r.reads t) {e : Location × Record} (he : e ∈ r.selected piece) :
    r.Matches t e.1 e.2 := by
  obtain ⟨he, hpasses⟩ := List.mem_filter.1 he
  obtain ⟨hstored, hcovers⟩ := mem_reads_iff.1 (hpiece he)
  exact ⟨(Table.rowAt_eq_some_iff ht).2 hstored, hcovers, hpasses⟩

theorem mem_readsAfter_or_behind {e : Location × Record} (he : e ∈ r.reads t)
    (start : Option Location) (fetched : Bool) :
    e ∈ r.readsAfter t start ∨ r.Behind start fetched e.1 := by
  cases start with
  | none => exact .inl he
  | some a =>
    by_cases hahead : r.Ahead a e.1
    · exact .inl (List.mem_filter.2 ⟨he, decide_eq_true hahead⟩)
    · exact .inr hahead

theorem pageAfter_withPageSize {pageSize : Option Nat} {start : Option Location}
    {output : PageOutput} (h : (r.withPageSize pageSize).PageAfter t start output) :
    r.PageAfter t start output := by
  cases r with
  | query q =>
    cases h with
    | last items lastKey => exact .last items lastKey
    | more read rest loc row key split items lastKey located =>
      exact .more read rest loc row key split items lastKey located
  | scan s =>
    cases h with
    | last items lastKey => exact .last items lastKey
    | more read rest loc row key split items lastKey located =>
      exact .more read rest loc row key split items lastKey located

end Request

/-- The rows that a walk found on some pages, and the locations that it covered with them: those
behind its cursor. -/
structure Coverage (r : Request) (t : Table) (allowed : List Table.Edit)
    (seen : List (Table × PageOutput)) (start : Option Location) (fetched : Bool)
    (found : List (Location × Record)) : Prop where
  live : ∀ p ∈ seen, p.1.Live r t allowed
  located : ∀ e ∈ found, t.schema.Locates e.2.fields e.1
  ordered : found.Pairwise fun a b => r.Ahead a.1 b.1
  /-- Each row was on a page, and was stored and matched when that was read. -/
  matched : ∀ e ∈ found, ∃ p ∈ seen, r.Matches p.1 e.1 e.2 ∧ e.2 ∈ p.2.items
  behind : ∀ e ∈ found, r.Behind start fetched e.1
  /-- A location that had a matching row on every page was not passed over. -/
  complete : ∀ loc, r.Behind start fetched loc →
    (∀ p ∈ seen, ∃ row, r.Matches p.1 loc row) → ∃ e ∈ found, e.1 = loc

namespace Coverage

variable {r : Request} {t u : Table} {allowed : List Table.Edit}
  {seen : List (Table × PageOutput)} {start next : Option Location} {fetched : Bool}
  {found : List (Location × Record)} {output : PageOutput}

theorem empty (r : Request) (t : Table) (allowed : List Table.Edit) :
    Coverage r t allowed [] none false [] where
  live := by simp
  located := by simp
  ordered := List.Pairwise.nil
  matched := by simp
  behind := by simp
  complete loc hbehind := by cases hbehind

/-! ## One more page -/

theorem ahead_of_mem (h : Coverage r t allowed seen start fetched found) (hu : u.Live r t allowed)
    (hsound : ∀ a, start = some a → a.Sound) (hopen : start = none → fetched = false)
    {e e' : Location × Record} (he : e ∈ found) (he' : e' ∈ r.readsAfter u start) :
    r.Ahead e.1 e'.1 := by
  have hbehind := h.behind e he
  cases hstart : start with
  | none =>
    rw [hstart, hopen hstart] at hbehind
    cases hbehind
  | some a =>
    rw [hstart] at hbehind he'
    obtain ⟨hreads, hahead⟩ := List.mem_filter.1 he'
    have hahead : r.Ahead a e'.1 := of_decide_eq_true hahead
    have hsound' : e'.1.Sound := (Request.locates_of_mem_reads hu.wellFormed hreads).sound
    rcases r.ahead_or_eq_or_ahead e.1 a with hlt | heq | hgt
    · exact Request.ahead_trans (h.located e he).sound (hsound a hstart) hsound' hlt hahead
    · exact heq ▸ hahead
    · exact absurd hgt hbehind

/-- A piece was read of what is left, and the cursor now stands right behind it. -/
theorem extend (h : Coverage r t allowed seen start fetched found) (hu : u.Live r t allowed)
    {piece rest : List (Location × Record)} (hsplit : r.readsAfter u start = piece ++ rest)
    (hahead : ∀ e ∈ found, ∀ e' ∈ piece, r.Ahead e.1 e'.1) (hitems : output.items = r.select piece)
    (hbehind : ∀ e ∈ found ++ piece, r.Behind next true e.1)
    (hrest : ∀ e ∈ rest, ¬ r.Behind next true e.1) :
    Coverage r t allowed (seen ++ [(u, output)]) next true (found ++ r.selected piece) := by
  have hpiece : piece.Sublist (r.reads u) :=
    (hsplit ▸ List.sublist_append_left piece rest).trans (Request.readsAfter_sublist r u start)
  have hselected : r.selected piece ⊆ piece := List.filter_sublist.subset
  have hmem {p : Table × PageOutput} (hp : p ∈ seen) : p ∈ seen ++ [(u, output)] :=
    List.mem_append_left _ hp
  have hlast : (u, output) ∈ seen ++ [(u, output)] := List.mem_append_right _ List.mem_cons_self
  refine ⟨fun p hp => ?_, fun e he => ?_, ?_, fun e he => ?_, fun e he => ?_,
    fun loc hloc hall => ?_⟩
  · rcases List.mem_append.1 hp with hp | hp
    · exact h.live p hp
    · rwa [List.mem_singleton.1 hp]
  · rcases List.mem_append.1 he with he | he
    · exact h.located e he
    · have hreads := hpiece.subset (hselected he)
      exact hu.schema ▸ Request.locates_of_mem_reads hu.wellFormed hreads
  · have hsorted := ((Request.reads_sorted hu.wellFormed).sublist hpiece).filter
      (passesAll r.filters ·.2)
    exact List.pairwise_append.2
      ⟨h.ordered, hsorted, fun e he e' he' => hahead e he e' (hselected he')⟩
  · rcases List.mem_append.1 he with he | he
    · obtain ⟨p, hp, hmatches⟩ := h.matched e he
      exact ⟨p, hmem hp, hmatches⟩
    · refine ⟨_, hlast, Request.matches_of_mem_selected hu.wellFormed hpiece.subset he, ?_⟩
      rw [hitems, ← Request.map_selected]
      exact List.mem_map_of_mem he
  · rcases List.mem_append.1 he with he | he
    · exact hbehind e (List.mem_append_left _ he)
    · exact hbehind e (List.mem_append_right _ (hselected he))
  · obtain ⟨row, hrow⟩ := hall _ hlast
    rcases Request.mem_readsAfter_or_behind (hrow.mem_reads hu.wellFormed) start fetched with
      hafter | hearlier
    · rw [hsplit] at hafter
      rcases List.mem_append.1 hafter with hread | hunread
      · have hfound : (loc, row) ∈ r.selected piece := List.mem_filter.2 ⟨hread, hrow.passes⟩
        exact ⟨_, List.mem_append_right _ hfound, rfl⟩
      · exact absurd hloc (hrest _ hunread)
    · obtain ⟨e, he, heq⟩ := h.complete loc hearlier fun p hp => hall p (hmem hp)
      exact ⟨e, List.mem_append_left _ he, heq⟩

/-- **One more page** extends what was found and what was covered. -/
theorem page (h : Coverage r t allowed seen start fetched found) (hu : u.Live r t allowed)
    (hsound : ∀ a, start = some a → a.Sound) (hopen : start = none → fetched = false)
    (hpage : r.PageAfter u start output) : ∃ next items, items.map (·.2) = output.items ∧
      r.StartsAt t.schema output.lastKey next ∧
      Coverage r t allowed (seen ++ [(u, output)]) next true (found ++ items) := by
  have hahead {e e' : Location × Record} (he : e ∈ found) (he' : e' ∈ r.readsAfter u start) :
      r.Ahead e.1 e'.1 := h.ahead_of_mem hu hsound hopen he he'
  cases hpage with
  | last items lastKey =>
    refine ⟨none, r.selected (r.readsAfter u start), ?_, ?_, ?_⟩
    · rw [Request.map_selected, items]
    · rw [lastKey]
      exact .none
    · exact h.extend hu (List.append_nil _).symm (fun e he e' he' => hahead he he') items
        (fun _ _ => rfl) (by simp)
  | more read rest loc row key split items lastKey located =>
    have hsplit : r.readsAfter u start = (read ++ [(loc, row)]) ++ rest := by
      rw [split, List.append_assoc]
      rfl
    have hmem {e : Location × Record} (he : e ∈ read ++ [(loc, row)]) :
        e ∈ r.readsAfter u start := hsplit ▸ List.mem_append_left _ he
    have hlast : (loc, row) ∈ r.readsAfter u start :=
      hmem (List.mem_append_right _ List.mem_cons_self)
    have hreads := (Request.readsAfter_sublist r u start).subset hlast
    have hloc : loc.Sound := located.sound
    have hsorted : (read ++ (loc, row) :: rest).Pairwise fun a b => r.Ahead a.1 b.1 :=
      split ▸ (Request.reads_sorted hu.wellFormed).sublist (Request.readsAfter_sublist r u start)
    obtain ⟨-, hlater, hearlier⟩ := List.pairwise_append.1 hsorted
    refine ⟨some loc, r.selected (read ++ [(loc, row)]), ?_, ?_, ?_⟩
    · rw [Request.map_selected, items]
    · rw [lastKey]
      exact .some (hu.schema ▸ located)
        (Request.owns_of_covers (Request.mem_reads_iff.1 hreads).2)
    · refine h.extend hu hsplit (fun e he e' he' => hahead he (hmem he')) items ?_ ?_
      · intro e he
        rcases List.mem_append.1 he with he | he
        · exact Request.ahead_asymm (h.located e he).sound hloc (hahead he hlast)
        · rcases List.mem_append.1 he with hread | hrow
          · have hreads' := (Request.readsAfter_sublist r u start).subset (hmem he)
            have hsound' := (Request.locates_of_mem_reads hu.wellFormed hreads').sound
            exact Request.ahead_asymm hsound' hloc (hearlier e hread _ List.mem_cons_self)
          · rw [List.mem_singleton.1 hrow]
            exact Request.ahead_irrefl r loc
      · exact fun e he hbehind => hbehind ((List.pairwise_cons.1 hlater).1 e he)

/-! ## Restarts -/

/-- **A walk that goes on at a row** has covered what lies up to it. -/
theorem restart {kept dropped : List (Location × Record)} {loc : Location} {row : Record}
    (h : Coverage r t allowed seen start fetched (kept ++ (loc, row) :: dropped))
    (hsound : ∀ a, start = some a → a.Sound) :
    Coverage r t allowed seen (some loc) false (kept ++ [(loc, row)]) := by
  have hrow : (loc, row) ∈ kept ++ (loc, row) :: dropped :=
    List.mem_append_right _ List.mem_cons_self
  have hsub : (kept ++ [(loc, row)]).Sublist (kept ++ (loc, row) :: dropped) := by simp
  have hloc : loc.Sound := (h.located _ hrow).sound
  obtain ⟨-, hlater, hearlier⟩ := List.pairwise_append.1 h.ordered
  refine ⟨h.live, fun e he => h.located e (hsub.subset he), h.ordered.sublist hsub,
    fun e he => h.matched e (hsub.subset he), fun e he => ?_, fun other hother hall => ?_⟩
  · rcases List.mem_append.1 he with hkept | hlast
    · exact Request.ahead_asymm (h.located e (hsub.subset he)).sound hloc
        (hearlier e hkept _ List.mem_cons_self)
    · rw [List.mem_singleton.1 hlast]
      exact Request.ahead_irrefl r loc
  · -- `other` lies up to `loc`, and `loc` up to the cursor
    have hbehind : r.Behind start fetched other := by
      have hcursor := h.behind _ hrow
      cases hstart : start with
      | none =>
        rw [hstart] at hcursor
        exact hcursor
      | some a =>
        rw [hstart] at hcursor
        intro hahead
        obtain ⟨p, hp, -⟩ := h.matched _ hrow
        obtain ⟨row', hrow'⟩ := hall p hp
        have hother' : other.Sound := hrow'.sound (h.live p hp).wellFormed
        rcases r.ahead_or_eq_or_ahead a loc with hgt | heq | hlt
        · exact hcursor hgt
        · exact hother (heq ▸ hahead)
        · exact hother (Request.ahead_trans hloc (hsound a hstart) hother' hlt hahead)
    obtain ⟨e, he, heq⟩ := h.complete other hbehind hall
    rcases List.mem_append.1 he with he | he
    · exact ⟨e, List.mem_append_left _ he, heq⟩
    · rcases List.mem_cons.1 he with rfl | he
      · exact ⟨_, List.mem_append_right _ List.mem_cons_self, heq⟩
      · exact absurd ((List.pairwise_cons.1 hlater).1 e he) (heq ▸ hother)

end Coverage

end CursorPaging
