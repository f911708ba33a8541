import CursorPaging.Proofs.CommandLine.Arguments
import CursorPaging.Proofs.CommandLine.Modes
import Mathlib.Control.Monad.Basic

/-!
# Chains of runs

Runs over the same seed can be chained, each given the token that the one before printed. Together
they print the seed from its first row on, whatever their limits and page sizes.

* **`Launch`**, `Launch.run`: a run with some arguments and settings; `run_eq_launch`;
* `lastLine`, `lastLine_of_none`, `lastLine_of_some`: where a token is printed;
* `Launch.Resumes`, **`Chain`**: runs that go on after each other's tokens;
* `Report.Prints`, `Report.Exact`, **`PagedFrom`**: what runs say that together print the seed;
* `placed_of_resumes`: the next run; `exists_pagedFrom`: all runs; **`pages_exactly`**.
-/

namespace CursorPaging

-- powers are those of the core library
attribute [local instance (10000)] instPowNat

namespace CommandLine

/-- A run with arguments that a command line can give, and settings. -/
structure Launch where
  arguments : Arguments
  settings : Settings
  fits : arguments.Fits

/-- Seed a table and page through it. -/
def Launch.run (l : Launch) : Option Outcome :=
  match Demo.seed l.settings.paging l.arguments.rowCount with
  | .error e => some ⟨"", .failure (.store e)⟩
  | .ok table => page l.arguments l.settings table

theorem Launch.run_eq (l : Launch) : l.run = page l.arguments l.settings
    (Demo.seeded l.settings.paging l.arguments.rowCount l.arguments.rowCount) := by
  simp only [run, Demo.seed_eq]

theorem run_eq_launch {words : List String} {files : String → Option String}
    {environment : List (String × String)} (l : Launch)
    (hparse : Arguments.parse words = .ok l.arguments)
    (hload : Settings.load files environment l.arguments.confPath = .ok l.settings) :
    CommandLine.run words files environment = l.run := by
  rw [CommandLine.run, hparse]
  simp only [hload]
  rfl

/-! ## Tokens between runs -/

/-- The last line of some output. -/
def lastLine (output : String) : String :=
  .ofList (output.toList.dropLast.reverse.takeWhile (· ≠ '\n')).reverse

theorem lastLine_of_append {output : String} {before line : List Char}
    (h : output.toList = before ++ '\n' :: (line ++ ['\n'])) (hline : '\n' ∉ line) :
    lastLine output = .ofList line := by
  have hdrop : output.toList.dropLast = before ++ '\n' :: line := by
    rw [h, ← List.cons_append, ← List.append_assoc, List.dropLast_concat]
  have htake : (line.reverse ++ '\n' :: before.reverse).takeWhile (· ≠ '\n') = line.reverse := by
    rw [List.takeWhile_append_of_pos fun c hc => decide_eq_true ?_, List.takeWhile_cons_of_neg
      (by simp), List.append_nil]
    rintro rfl
    exact hline (List.mem_reverse.1 hc)
  rw [lastLine, hdrop, List.reverse_append, List.reverse_cons, List.append_assoc,
    List.singleton_append, htake, List.reverse_reverse]

/-- Output that ends a line. -/
def EndsLine (output : String) : Prop := ∃ before, output.toList = before ++ ['\n']

theorem EndsLine.append {output : String} (h : EndsLine output) (start : String) :
    EndsLine (start ++ output) := by
  obtain ⟨before, houtput⟩ := h
  exact ⟨start.toList ++ before, by rw [String.toList_append, houtput, List.append_assoc]⟩

theorem Report.endsLine_text (r : Report) : EndsLine r.text := by
  have hpages : EndsLine "\x1b[39m pages\n" := ⟨"\x1b[39m pages".toList, by decide +kernel⟩
  have htrue : EndsLine (pastText (some true)) :=
    ⟨"results past limit: \x1b[93mtrue\x1b[39m".toList, by decide +kernel⟩
  have hfalse : EndsLine (pastText (some false)) :=
    ⟨"results past limit: \x1b[93mfalse\x1b[39m".toList, by decide +kernel⟩
  rw [text]
  rcases r.past with _ | _ | _
  · rw [show pastText none = "" from rfl, String.append_empty]
    exact (hpages.append _).append _
  · exact hfalse.append _
  · exact htrue.append _

theorem Report.lastLine_text (r : Report) {line : String} (hline : '\n' ∉ line.toList) :
    lastLine (r.text ++ (line ++ "\n")) = line := by
  obtain ⟨before, htext⟩ := r.endsLine_text
  have hall : (r.text ++ (line ++ "\n")).toList = before ++ '\n' :: (line.toList ++ ['\n']) := by
    rw [String.toList_append, String.toList_append, htext, List.append_assoc]
    rfl
  rw [lastLine_of_append hall hline, String.ofList_toList]

theorem notMem_tokenLine {token : String} (h : '\n' ∉ token.toList) :
    '\n' ∉ (Report.tokenLine token).toList := by
  rw [Report.tokenLine]
  simp only [String.toList_append, List.mem_append, not_or]
  exact ⟨⟨by decide, h⟩, by decide⟩

theorem tokenLine_injective : Function.Injective Report.tokenLine := fun _ _ h =>
  (String.append_right_inj _).1 ((String.append_left_inj _).1 h)

theorem notMem_token (short : Bool) (i rows : Nat) : '\n' ∉ (Demo.token short i rows).toList :=
  fun h => absurd (PositionCodec.isTokenChar_of_mem_tokenOf h) (by decide)

theorem Report.lastLine_of_none {r : Report} (h : r.position = .ok none) :
    lastLine r.outcome.output = nothingLine := by
  rw [outcome, h]
  exact r.lastLine_text (by decide +kernel)

theorem Report.lastLine_of_some {r : Report} {token : String} (h : r.position = .ok (some token))
    (htoken : '\n' ∉ token.toList) : lastLine r.outcome.output = tokenLine token := by
  rw [outcome, h]
  exact r.lastLine_text (notMem_tokenLine htoken)

theorem nothing_ne_tokenLine (token : String) : Report.nothingLine ≠ Report.tokenLine token := by
  intro h
  have hfirst := congrArg (·.toList.head?) h
  simp only [Report.tokenLine, String.toList_append] at hfirst
  exact absurd (Option.some.inj hfirst) (by decide)

/-! ## Chains -/

/-- The next run is given the token that a run printed, and takes tokens of its length. -/
def Launch.Resumes (l next : Launch) : Prop :=
  ∃ o token, l.run = some o ∧ lastLine o.output = Report.tokenLine token ∧
    next.arguments.position = some token ∧
    Utf8.size token ≤ next.settings.paging.maxTokenLength

/-- The modes that runs can go on in: queries, with the hash key of the rows or without one, and
scans without one. -/
inductive Resumable : Mode → Option String → Prop
  | query : Resumable .query none
  | queryOf : Resumable .query (some Demo.tenant)
  | scan : Resumable .scan none

/-- A run over some rows in some mode, with a limit of one row at least if it has any. -/
structure Launch.Over (l : Launch) (rows : Nat) (mode : Mode) (hashKey : Option String) :
    Prop where
  rows : l.arguments.rowCount = rows
  mode : l.arguments.pagingMode = mode
  hashKey : l.arguments.hashKey = hashKey
  limit : l.arguments.limit ≠ some 0

/-- Runs over the same rows, each of which is given the token that the one before printed. -/
structure Chain (rows : Nat) (mode : Mode) (hashKey : Option String) (launches : List Launch) :
    Prop where
  resumable : Resumable mode hashKey
  alike : ∀ l ∈ launches, l.Over rows mode hashKey
  first : ∀ l ∈ launches.head?, l.arguments.position = none
  resumed : launches.IsChain Launch.Resumes

/-- The report of a run that prints the seed after some rows, up to its limit. -/
structure Report.Prints (report : Report) (l : Launch) (done : Nat) : Prop where
  rows : report.rows = (((List.range l.arguments.rowCount).drop done).take
    (l.arguments.limit.getD l.arguments.rowCount)).map (Demo.shown · l.arguments.rowCount)
  pages : report.pages = pagesFor l.arguments l.settings.paging report.rows.length
  past : report.past =
    l.arguments.limit.map fun _ => decide (done + report.rows.length < l.arguments.rowCount)

/-- The report of a run of a chain. -/
structure Report.Exact (report : Report) (l : Launch) (done : Nat) : Prop
    extends report.Prints l done where
  succeeds : report.outcome.ending = .success
  position : report.position = .ok none ↔
    ∀ n, l.arguments.limit = some n → report.rows.length < n

/-- The reports of runs that go on after each other's rows. -/
inductive PagedFrom : Nat → List Launch → List Report → Prop
  | nil (done : Nat) : PagedFrom done [] []
  | cons {done : Nat} {l : Launch} {report : Report} {launches : List Launch}
      {reports : List Report} (run : l.run = some report.outcome)
      (exact : report.Exact l done)
      (rest : PagedFrom (done + report.rows.length) launches reports) :
      PagedFrom done (l :: launches) (report :: reports)

variable {l : Launch} {done rows : Nat} {report : Report} {mode : Mode} {hashKey : Option String}

theorem Resumable.ne_batch (h : Resumable mode hashKey) : mode ≠ .batch := by
  cases h <;> decide

theorem Resumable.eq_query (h : Resumable mode hashKey) (hhash : hashKey.isSome = true) :
    mode = .query := by
  cases h with
  | queryOf => rfl
  | _ => cases hhash

theorem Resumable.eq_tenant (h : Resumable mode hashKey) {hash : String}
    (hhash : hashKey = some hash) : hash = Demo.tenant := by
  cases h with
  | queryOf => exact (Option.some.inj hhash).symm
  | _ => cases hhash

theorem drop_range (done rows : Nat) : (List.range rows).drop done = rest done rows := by
  rw [rest, List.range_eq_range', List.drop_range', Nat.zero_add, Nat.mul_one]

theorem Lists.prints {pages : Nat} (h : Lists l.arguments done pages report)
    (hpages : pages = pagesFor l.arguments l.settings.paging (printed l.arguments done)) :
    report.Prints l done where
  rows := by
    have hcount : min (l.arguments.limit.getD l.arguments.rowCount) (l.arguments.rowCount - done) =
        printed l.arguments done := by
      rw [printed]
      cases l.arguments.limit with
      | none => exact (Nat.min_eq_right (Nat.sub_le ..)).trans (Nat.min_self _).symm
      | some n => rfl
    rw [drop_range, take_rest, hcount, h.rows]
  pages := by rw [h.length_rows, h.pages, hpages]
  past := by rw [h.length_rows, h.past]

theorem GoesOn.exact (h : GoesOn l.arguments done report) (hprints : report.Prints l done) :
    report.Exact l done where
  toPrints := hprints
  succeeds := by
    by_cases hopen : ∀ n, l.arguments.limit = some n → report.rows.length < n
    · rw [Report.outcome, h.ends hopen]
    · obtain ⟨i, -, -, hposition⟩ := h.token hopen
      rw [Report.outcome, hposition]
  position := by
    refine ⟨fun hposition => ?_, h.ends⟩
    by_contra hreached
    obtain ⟨i, -, -, htoken⟩ := h.token hreached
    rw [hposition] at htoken
    cases htoken

/-- **The next run goes on** after the rows that were printed so far. -/
theorem placed_of_resumes {next : Launch} (hresumable : Resumable mode hashKey)
    (hl : l.Over rows mode hashKey) (hnext : next.Over rows mode hashKey)
    (hresumes : l.Resumes next) (hrun : l.run = some report.outcome)
    (hgoes : GoesOn l.arguments done report) :
    Placed next.arguments next.settings.paging.codec (done + report.rows.length) := by
  obtain ⟨o, token, ho, hline, hposition, hsize⟩ := hresumes
  obtain rfl : report.outcome = o := Option.some.inj (hrun.symm.trans ho)
  by_cases hopen : ∀ n, l.arguments.limit = some n → report.rows.length < n
  · rw [Report.lastLine_of_none (hgoes.ends hopen)] at hline
    exact absurd hline (nothing_ne_tokenLine token)
  · obtain ⟨i, hi, hinside, htoken⟩ := hgoes.token hopen
    rw [Report.lastLine_of_some htoken (notMem_token _ _ _)] at hline
    obtain rfl := tokenLine_injective hline
    rw [hl.hashKey, hl.rows, ← hnext.hashKey, ← hnext.rows] at hposition hsize
    rw [hl.rows, ← hnext.rows] at hinside
    exact hi ▸ .after i hinside hposition
      (fun hash hhash => hresumable.eq_tenant (hnext.hashKey.symm.trans hhash)) hsize

/-- **Runs that start at some row** print the seed from there on. -/
theorem exists_pagedFrom (hresumable : Resumable mode hashKey) {launches : List Launch}
    (hover : ∀ l ∈ launches, l.Over rows mode hashKey)
    (hresumed : launches.IsChain Launch.Resumes) (done : Nat)
    (hplaced : ∀ l ∈ launches.head?, Placed l.arguments l.settings.paging.codec done) :
    ∃ reports, PagedFrom done launches reports := by
  induction launches generalizing done with
  | nil => exact ⟨[], .nil done⟩
  | cons l launches ih =>
    have hl := hover l List.mem_cons_self
    have hothers : ∀ l ∈ launches, l.Over rows mode hashKey :=
      fun l hmem => hover l (List.mem_cons_of_mem _ hmem)
    have hquery (hhash : l.arguments.hashKey.isSome = true) : l.arguments.pagingMode = .query :=
      hl.mode.trans (hresumable.eq_query (hl.hashKey ▸ hhash))
    obtain ⟨report, hpage, hlists, hgoes⟩ := page_of_placed (hl.mode ▸ hresumable.ne_batch) hl.limit
      (hplaced l rfl) (fun _ => hquery) l.fits.rowCount_lt
    have hrun : l.run = some report.outcome := l.run_eq.trans hpage
    have hnext : ∀ next ∈ launches.head?, Placed next.arguments next.settings.paging.codec
        (done + report.rows.length) := fun next hhead =>
      placed_of_resumes hresumable hl (hothers next (List.mem_of_mem_head? hhead))
        ((List.isChain_cons.1 hresumed).1 next hhead) hrun (hgoes hquery)
    obtain ⟨reports, hpaged⟩ := ih hothers hresumed.tail _ hnext
    exact ⟨report :: reports, .cons hrun ((hgoes hquery).exact (hlists.prints rfl)) hpaged⟩

/-- What such runs print together is a part of the seed, from where they start. -/
theorem PagedFrom.flatMap_ids {launches : List Launch} {reports : List Report}
    (h : PagedFrom done launches reports) (hrows : ∀ l ∈ launches, l.arguments.rowCount = rows) :
    reports.flatMap Report.ids <+: ((List.range rows).drop done).map (Demo.rowId · rows) := by
  induction h with
  | nil => exact List.nil_prefix
  | @cons done l report launches reports run exact rest ih =>
    have hids := congrArg (List.map (·.id)) exact.rows
    rw [hrows l List.mem_cons_self, List.map_map] at hids
    obtain ⟨others, hsplit⟩ : report.ids <+: ((List.range rows).drop done).map
        (Demo.rowId · rows) := by
      rw [Report.ids, hids, List.map_take]
      exact List.take_prefix ..
    have hothers : ((List.range rows).drop (done + report.rows.length)).map (Demo.rowId · rows) =
        others := by
      have hlength : report.ids.length = report.rows.length := List.length_map ..
      rw [← List.drop_drop, List.map_drop, ← hsplit, ← hlength, List.drop_left]
    have hrest := ih fun l hl => hrows l (List.mem_cons_of_mem _ hl)
    rw [List.flatMap_cons, ← hsplit]
    exact (List.prefix_append_right_inj _).2 (hothers ▸ hrest)

/-- **The command line pages through its seed exactly.** Without a token every mode prints the seed
up to its limit. Runs that are each given the token of the one before print it from its first row
on, until they print less than their limit. -/
theorem pages_exactly :
    (∀ (words : List String) (files : String → Option String) (environment : List (String × String))
      (a : Arguments) (settings : Settings), Arguments.parse words = .ok a →
        Settings.load files environment a.confPath = .ok settings →
        ∃ l : Launch, l.arguments = a ∧ l.settings = settings ∧
          CommandLine.run words files environment = l.run) ∧
    (∀ l : Launch, Arguments.parse l.arguments.spelled = .ok l.arguments) ∧
    (∀ i rows : Nat, i < 2 ^ (53 : Nat) → (Demo.shown i rows).n.text = toString i) ∧
    (∀ l : Launch, l.arguments.position = none → l.arguments.limit ≠ some 0 →
      ∃ report : Report, l.run = some report.outcome ∧ report.Prints l 0 ∧
        (l.arguments.pagingMode = .batch → report.position = .ok none)) ∧
    ∀ (rows : Nat) (mode : Mode) (hashKey : Option String) (launches : List Launch),
      Chain rows mode hashKey launches → ∃ reports, PagedFrom 0 launches reports ∧
        reports.flatMap Report.ids <+: (List.range rows).map (Demo.rowId · rows) := by
  refine ⟨fun words files environment a settings hparse hload => ?_,
    fun l => Arguments.parse_spelled l.fits, fun i rows hi => Binary64.text_of_nat hi,
    fun l hposition hlimit => ?_, fun rows mode hashKey launches h => ?_⟩
  · exact ⟨⟨a, settings, Arguments.fits_of_parse hparse⟩, rfl, rfl, run_eq_launch _ hparse hload⟩
  · obtain ⟨report, hpage, hlists, hnone⟩ := page_of_start hlimit hposition l.fits.rowCount_lt
    exact ⟨report, l.run_eq.trans hpage, hlists.prints rfl, hnone⟩
  · obtain ⟨reports, hpaged⟩ := exists_pagedFrom h.resumable h.alike h.resumed 0
      fun l hl => .start (h.first l hl)
    exact ⟨reports, hpaged, hpaged.flatMap_ids fun l hl => (h.alike l hl).rows⟩

/-- A query for two of three rows, one a page. -/
def twoOfThree : Launch where
  arguments := ⟨none, some 3, none, some 2, none, some "acme"⟩
  settings := ⟨⟨1, 100, defaultMaxTokenLength⟩, .default⟩
  fits := ⟨by simp, by simp⟩

/-- A query that goes on after the second of three rows. -/
def afterTwoOfThree : Launch where
  arguments := ⟨none, some 3, none, none, some "aWQ9U0glNUYx", some "acme"⟩
  settings := .default
  fits := ⟨by simp, by simp⟩

theorem pages_exactly_in_two_runs :
    (∃ l : Launch, l.arguments = twoOfThree.arguments ∧ l.settings = twoOfThree.settings ∧
      CommandLine.run ["--rows", "3", "--limit", "2", "--hash-key", "acme"] (fun _ => none)
        [("TIDEPOOL_PAGING__PAGE_SIZE", "1")] = l.run) ∧
    (Demo.shown 2 3).n.text = "2" ∧
    (∃ report : Report, twoOfThree.run = some report.outcome ∧ report.Prints twoOfThree 0 ∧
      (twoOfThree.arguments.pagingMode = .batch → report.position = .ok none)) ∧
    Chain 3 .query (some "acme") [twoOfThree, afterTwoOfThree] ∧
    ∃ reports, PagedFrom 0 [twoOfThree, afterTwoOfThree] reports ∧
      reports.flatMap Report.ids <+: ["H_0", "H_1", "H_2"] := by
  have hparse : Arguments.parse ["--rows", "3", "--limit", "2", "--hash-key", "acme"] =
      .ok twoOfThree.arguments := by decide +kernel
  have hload : Settings.load (fun _ => none) [("TIDEPOOL_PAGING__PAGE_SIZE", "1")]
      twoOfThree.arguments.confPath = .ok twoOfThree.settings := by decide +kernel
  have hline : twoOfThree.run.map (fun o => lastLine o.output) =
      some (Report.tokenLine "aWQ9U0glNUYx") := by decide +kernel
  obtain ⟨o, hrun, hlast⟩ := Option.map_eq_some_iff.1 hline
  have hresumes : twoOfThree.Resumes afterTwoOfThree :=
    ⟨o, "aWQ9U0glNUYx", hrun, hlast, rfl, by decide +kernel⟩
  have hchain : Chain 3 .query (some "acme") [twoOfThree, afterTwoOfThree] := by
    refine ⟨.queryOf, fun l hl => ?_, fun l hl => ?_, List.isChain_pair.2 hresumes⟩
    · simp only [List.mem_cons, List.not_mem_nil, or_false] at hl
      obtain rfl | rfl := hl <;> exact ⟨rfl, rfl, rfl, by decide⟩
    · obtain rfl := Option.some.inj hl
      rfl
  exact ⟨pages_exactly.1 _ _ _ _ _ hparse hload, pages_exactly.2.2.1 2 3 (by decide),
    pages_exactly.2.2.2.1 twoOfThree rfl (by decide), hchain,
    pages_exactly.2.2.2.2 3 _ _ _ hchain⟩

end CommandLine

end CursorPaging
