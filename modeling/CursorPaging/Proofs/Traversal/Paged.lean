import Mathlib.Algebra.Order.Floor.Div
import CursorPaging.Proofs.Traversal.Pulls

/-!
# Walks over whole pages

A source that cuts a list into pages of one size, all of them full but the last. A walk that is
pulled to its end has fetched as many of them as the records take that it has handed out.

* `Paged`: such a source; `Paged.of_fetch`: a fetch from it; `Paged.exists_serves`,
  `Paged.exists_plays`: the pages that it gives;
* `Paced`: a walk over it and how much it has handed out; `Paced.next`: one call for the next
  result; `Paced.pages_of_pulls`: all calls until there is none;
* **`pages_of_pulls`**.
-/

namespace CursorPaging

theorem one_le_ceilDiv {count size : Nat} (hcount : 0 < count) (hsize : 0 < size) :
    1 ≤ count ⌈/⌉ size := by
  by_contra hnone
  have hle := (ceilDiv_le_iff_le_mul hsize).1 (Nat.lt_succ_iff.1 (Nat.not_le.1 hnone))
  omega

/-- A source that gives some records in pages of one size, and has no more after the last. -/
inductive Paged {σ : Type} [PageSource σ] (size : Nat) : σ → List Record → Prop
  | dry {s : σ} (more : PageSource.hasMore s = false) : Paged size s []
  | page {s u : σ} {page : Page} {records : List Record} (more : PageSource.hasMore s = true)
      (fetch : PageSource.fetchPage s = (.ok page, u)) (first : page.records = records.take size)
      (continues : PageSource.hasMore u = page.continuation.isMore)
      (long : PageSource.hasMore u = true → size < records.length)
      (rest : Paged size u (records.drop size)) : Paged size s records

section Sources

variable {σ τ : Type} [PageSource σ] [PageSource τ] {size : Nat} {s u : σ} {records : List Record}

theorem Paged.of_fetch {outcome : Except PagingError Page} (h : Paged size s records)
    (hmore : PageSource.hasMore s = true) (hfetch : PageSource.fetchPage s = (outcome, u)) :
    ∃ page, outcome = .ok page ∧ page.records = records.take size ∧
      PageSource.hasMore u = page.continuation.isMore ∧
      (PageSource.hasMore u = true → size < records.length) ∧ Paged size u (records.drop size) := by
  cases h with
  | dry more =>
    rw [hmore] at more
    cases more
  | page more fetch first continues long rest =>
    obtain ⟨rfl, rfl⟩ := Prod.mk.inj (fetch.symm.trans hfetch)
    exact ⟨_, rfl, first, continues, long, rest⟩

/-- Only where no records are left, a page has none, and it is the last. -/
theorem Paged.of_empty {page : Page} (h : Paged size s records) (hsize : 1 ≤ size)
    (hmore : PageSource.hasMore s = true) (hfetch : PageSource.fetchPage s = (.ok page, u))
    (hrecords : page.records = []) : records = [] ∧ page.continuation.isMore ≠ true := by
  obtain ⟨page, ⟨⟩, hfirst, hcontinues, hlong, -⟩ := h.of_fetch hmore hfetch
  rw [hfirst, List.take_eq_nil_iff] at hrecords
  obtain rfl : records = [] := hrecords.resolve_left (by omega)
  rw [← hcontinues]
  exact ⟨rfl, fun hmore' => Nat.not_lt_zero _ (hlong hmore')⟩

theorem Paged.exists_serves (h : Paged size s records) (hsize : 1 ≤ size) :
    ∃ pages u, Serves s pages none u ∧ pages.length ≤ records.length + 1 ∧
      pages.flatMap (·.records) = records := by
  induction h with
  | dry more => exact ⟨[], _, .dry more, Nat.zero_le _, rfl⟩
  | @page s u page records more fetch first continues long rest ih =>
    obtain ⟨pages, v, hserves, hlength, hrecords⟩ := ih
    refine ⟨page :: pages, v, .page more fetch continues hserves, ?_, ?_⟩
    · rw [List.length_drop] at hlength
      rw [List.length_cons]
      cases hmore : PageSource.hasMore u with
      | true =>
        have hlong := long hmore
        omega
      | false =>
        obtain ⟨rfl, -, -⟩ := hserves.of_dry hmore
        exact Nat.le_add_left 1 _
    · rw [List.flatMap_cons, first, hrecords, List.take_append_drop]

theorem Paged.exists_plays (h : Paged size s records) (hsize : 1 ≤ size) :
    ∃ outcomes, Plays s outcomes ∧ outcomes.length ≤ records.length + 1 ∧
      effective outcomes = (records, none) := by
  obtain ⟨pages, u, hserves, hlength, rfl⟩ := h.exists_serves hsize
  obtain ⟨hplays, heffective⟩ := hserves.plays rfl
  exact ⟨_, hplays, by rwa [List.length_map], heffective⟩

theorem Paged.of_map {f : σ → τ} (hf : Traversal.SourceMap f) {x : τ} (h : Paged size x records) :
    ∀ {s : σ}, f s = x → Paged size s records := by
  induction h with
  | dry more =>
    rintro s rfl
    exact .dry ((hf.hasMore s).symm.trans more)
  | page more fetch first continues long rest ih =>
    rintro s rfl
    rw [hf.fetchPage, Prod.mk.injEq] at fetch
    obtain ⟨hpage, rfl⟩ := fetch
    rw [hf.hasMore] at more continues long
    exact .page more (Prod.ext hpage rfl) first continues long (ih rfl)

end Sources

namespace Traversal

variable {σ α : Type} [PageSource σ] {fuel size count : Nat} {t u : Traversal σ α}
  {rest taken records : List Record}

/-- A walk over a source of whole pages that has handed out some records, and has fetched the pages
that they take and no more. -/
structure Paced (size count : Nat) (rest : List Record) (t : Traversal σ α) : Prop where
  alive : t.phase ≠ .failed
  paged : Paged size t.source rest
  more : PageSource.hasMore t.source = true → rest ≠ [] ∨ t.pages = 0
  full : rest ≠ [] → size * t.pages = count + t.buffer.length
  covered : count + t.buffer.length ≤ size * t.pages
  least : size * t.pages < count + size

theorem Paced.start {source : σ} (h : Paged size source records) (hsize : 1 ≤ size) (limit : Limit)
    (codec : PositionCodec) (m : Record → Except PagingError α) :
    Paced size 0 records (start source limit codec m) :=
  ⟨nofun, h, fun _ => .inr rfl, fun _ => rfl, Nat.le_refl _, by rw [Nat.zero_add]; exact hsize⟩

theorem Paced.lookingAhead (h : Paced size count rest t) :
    Paced size count rest { t with phase := .lookingAhead } :=
  ⟨nofun, h.paged, h.more, h.full, h.covered, h.least⟩

theorem Paced.pages_eq (h : Paced size count rest t) (hsize : 1 ≤ size) :
    t.pages = count ⌈/⌉ size := by
  refine le_antisymm ?_ ((ceilDiv_le_iff_le_mul hsize).2 ?_)
  · have hleast := h.least
    rw [Nat.ceilDiv_eq_add_pred_div, Nat.le_div_iff_mul_le hsize, Nat.mul_comm]
    omega
  · exact (Nat.le_add_right _ _).trans h.covered

omit [PageSource σ] in
theorem alive_take {record : Record} {left : List Record} :
    (({ u with phase := .buffering } : Traversal σ α).take record left).phase ≠ .failed := by
  simp only [Traversal.take]
  split_ifs <;> simp

theorem Paced.fetch {record : Record} {left : List Record} (h : Paced size count rest t)
    (hsize : 1 ≤ size) (hempty : t.buffer = []) (hfetches : Fetches fuel t (.ok true) u)
    (hbuffer : u.buffer = record :: left) :
    ∃ rest', Paced size (count + 1) rest'
      (({ u with phase := .buffering } : Traversal σ α).take record left) := by
  have hcovered := h.covered
  rw [hempty, List.length_nil, Nat.add_zero] at hcovered
  cases hfetches with
  | skip more fetch records continues =>
    exact absurd continues (h.paged.of_empty hsize more fetch records).2
  | found more fetch records =>
    obtain ⟨page, ⟨⟩, hfirst, -, hlong, hlater⟩ := h.paged.of_fetch more fetch
    have hrest : rest ≠ [] := by
      rintro rfl
      exact records (hfirst.trans List.take_nil)
    have hfull := h.full hrest
    rw [hempty, List.length_nil, Nat.add_zero] at hfull
    have hlength : left.length + 1 = min size rest.length := by
      rw [← List.length_take, ← hfirst, ← List.length_cons (a := record), ← hbuffer, hempty]
      rfl
    refine ⟨rest.drop size, alive_take, hlater, fun hmore => .inl ?_, fun hopen => ?_, ?_, ?_⟩
    · have hlong' := hlong hmore
      rw [Ne, List.drop_eq_nil_iff]
      omega
    · rw [Ne, List.drop_eq_nil_iff] at hopen
      change size * (t.pages + 1) = count + 1 + left.length
      rw [Nat.mul_succ]
      omega
    · change count + 1 + left.length ≤ size * (t.pages + 1)
      rw [Nat.mul_succ]
      omega
    · change size * (t.pages + 1) < count + 1 + size
      rw [Nat.mul_succ]
      omega

theorem Paced.take {record : Record} {left : List Record} (h : Paced size count rest t)
    (hsize : 1 ≤ size) (hlook : LooksAhead fuel t (.ok true) u)
    (hbuffer : u.buffer = record :: left) :
    ∃ rest', Paced size (count + 1) rest'
      (({ u with phase := .buffering } : Traversal σ α).take record left) := by
  cases hlook with
  | buffered buffer =>
    have hlength : t.buffer.length = left.length + 1 := by rw [hbuffer, List.length_cons]
    obtain ⟨-, hpaged, hmore, hfull, hcovered, hleast⟩ := h
    refine ⟨rest, alive_take, hpaged, hmore, fun hrest => ?_, ?_, hleast.trans (by omega)⟩
    · have hpages := hfull hrest
      change size * t.pages = count + 1 + left.length
      omega
    · change count + 1 + left.length ≤ size * t.pages
      omega
  | past buffer phase fetches => exact h.fetch hsize buffer fetches hbuffer
  | ahead buffer phase fetches => exact h.lookingAhead.fetch hsize buffer fetches hbuffer

theorem Paced.not_failure {e : PagingError} (h : Paced size count rest t) (hsize : 1 ≤ size) :
    ¬ Fetches fuel t (.error e) u := by
  intro hfetches
  cases hfetches with
  | failure more fetch =>
    obtain ⟨page, hpage, -⟩ := h.paged.of_fetch more fetch
    cases hpage
  | skip more fetch records continues =>
    exact absurd continues (h.paged.of_empty hsize more fetch records).2

/-- Fetches that find nothing bring a page at the start of a walk alone. -/
theorem Paced.pages_of_nothing (h : Paced size count rest t) (hsize : 1 ≤ size)
    (hfetches : Fetches fuel t (.ok false) u) :
    u.pages = max t.pages (PageSource.hasMore t.source).toNat := by
  cases hfetches with
  | dry more =>
    rw [more]
    exact (Nat.max_zero _).symm
  | last more fetch records =>
    obtain ⟨rfl, -⟩ := h.paged.of_empty hsize more fetch records
    have hnone : t.pages = 0 := (h.more more).resolve_left (absurd rfl)
    rw [more]
    simp [hnone]
  | skip more fetch records continues =>
    exact absurd continues (h.paged.of_empty hsize more fetch records).2

/-- **One call for the next result** hands out one record more, or ends the walk. -/
theorem Paced.next {r : Option (Except PagingError α)} (h : Paced size count rest t)
    (hsize : 1 ≤ size) (hnext : t.next fuel = some (r, u)) :
    (r.isSome = true ∧ ∃ rest', Paced size (count + 1) rest' u) ∨
      (r = none ∧ (t.limit.isReached = true ∧ u.pages = t.pages ∨
        u.pages = max t.pages (PageSource.hasMore t.source).toNat)) := by
  cases next_of_eq hnext with
  | failed phase => exact absurd phase h.alive
  | failure alive next =>
    cases next with
    | failed phase => exact absurd phase h.alive
    | failure alive limit look =>
      cases look with
      | past buffer phase fetches => exact absurd fetches (h.not_failure hsize)
      | ahead buffer phase fetches =>
        exact absurd fetches (h.lookingAhead.not_failure hsize)
  | nothing next =>
    refine .inr ⟨rfl, ?_⟩
    cases next with
    | reached alive limit => exact .inl ⟨limit, rfl⟩
    | nothing alive limit look =>
      cases look with
      | past buffer phase fetches =>
        have hpages := h.pages_of_nothing hsize fetches
        exact .inr hpages
      | ahead buffer phase fetches =>
        have hpages := h.lookingAhead.pages_of_nothing hsize fetches
        exact .inr hpages
  | taken next buffer =>
    cases next with
    | found alive limit look =>
      exact .inl ⟨rfl, h.take hsize look buffer⟩

theorem Paced.pages_of_pulls (h : Paced size count rest t) (hsize : 1 ≤ size) (hcount : count ≠ 0)
    (hpulls : Pulls fuel t taken u) :
    u.pages = (count + taken.length) ⌈/⌉ size := by
  induction hpulls generalizing count rest with
  | @stop t u next looks =>
    have hsome : 1 ≤ t.pages := by
      have hcovered := h.covered
      by_contra hnone
      rw [Nat.lt_one_iff.1 (Nat.not_le.1 hnone)] at hcovered
      omega
    have hpages : u.pages = t.pages := by
      rcases h.next hsize next with ⟨hr, -⟩ | ⟨-, ⟨-, hpages⟩ | hpages⟩
      · cases hr
      · exact hpages
      · exact hpages.trans (Nat.max_eq_left ((Bool.toNat_le _).trans hsome))
    rw [hpages, h.pages_eq hsize]
    rfl
  | @take t v u record taken next takes later ih =>
    rcases h.next hsize next with ⟨-, rest', hv⟩ | ⟨hr, -⟩
    · rw [ih hv (Nat.succ_ne_zero count), List.length_cons, Nat.add_assoc, Nat.add_comm 1]
    · cases hr

/-- **As many pages are fetched as the records take** that a walk hands out, and the first one even
for none. -/
theorem pages_of_pulls {source : σ} {limit : Limit} {codec : PositionCodec}
    {m : Record → Except PagingError α} (h : Paged size source records) (hsize : 1 ≤ size)
    (hopen : limit.isReached = false) (hpulls : Pulls fuel (start source limit codec m) taken u) :
    u.pages = max (PageSource.hasMore source).toNat (taken.length ⌈/⌉ size) := by
  have hstart := Paced.start h hsize limit codec m
  cases hpulls with
  | stop next looks =>
    rcases hstart.next hsize next with ⟨hr, -⟩ | ⟨-, ⟨hreached, -⟩ | hpages⟩
    · cases hr
    · rw [Traversal.start, hopen] at hreached
      cases hreached
    · rw [hpages, List.length_nil, zero_ceilDiv, Nat.max_comm]
      rfl
  | @take _ v _ record taken next takes later =>
    rcases hstart.next hsize next with ⟨-, rest', hv⟩ | ⟨hr, -⟩
    · have hpages := hv.pages_of_pulls hsize (Nat.succ_ne_zero 0) later
      rw [hpages, List.length_cons, Nat.zero_add, Nat.add_comm 1, Nat.max_eq_right]
      exact (Bool.toNat_le _).trans (one_le_ceilDiv (Nat.succ_pos _) hsize)
    · cases hr

end Traversal

end CursorPaging
