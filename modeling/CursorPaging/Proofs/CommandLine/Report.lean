import CursorPaging.CommandLine.Run
import CursorPaging.Proofs.Table.Fresh
import CursorPaging.Proofs.Traversal.Paged

/-!
# Reports

What a run has to say, apart from how it is put into words: rows, a page count, whether there is
more past the limit, and where to go on. A run over a source that never fails says what its walk
comes to.

* **`Report`**, `Report.outcome`: a report and the text that is printed of it;
* `rowLine_eq`, `summary_eq`, `positionLine_eq`, `printRows_pulls`, `pastLimitLine_over`: parts of
  the output;
* `Finished`: the walk after all questions; **`exists_finished`**: what it comes to;
  **`drain_eq_report`**: a run prints the report of its walk.
-/

namespace CursorPaging

theorem Limit.cut_upTo (limit : Option Nat) (records : List Record) :
    (Limit.upTo limit).cut records = records.take (limit.getD records.length) := by
  cases limit with
  | none => exact List.take_length.symm
  | some n => rfl

namespace CommandLine

/-- What a run has to say. -/
structure Report where
  rows : List DemoRow
  pages : Nat
  /-- Whether there is more past the limit, if there is one. -/
  past : Option Bool
  /-- The token to go on after, nothing if there is none, or why that cannot be told. -/
  position : Except PagingError (Option String)

namespace Report

def ids (r : Report) : List String := r.rows.map (·.id)

/-- A row: its id in bright green, and its number. -/
def rowText (row : DemoRow) : String :=
  "\x1b[92m" ++ row.id ++ "\x1b[39m " ++ row.n.text ++ "\n"

def rowsText (rows : List DemoRow) : String := rows.foldl (fun text row => text ++ rowText row) ""

/-- How many rows on how many pages, in bright blue. -/
def summaryText (count pages : Nat) : String :=
  "\x1b[94m" ++ toString count ++ "\x1b[39m results over \x1b[94m" ++ toString pages ++
    "\x1b[39m pages\n"

def pastText : Option Bool → String
  | none => ""
  | some true => "results past limit: \x1b[93mtrue\x1b[39m\n"
  | some false => "results past limit: \x1b[93mfalse\x1b[39m\n"

/-- The line of a token, in bright yellow. -/
def tokenLine (token : String) : String := "position: \x1b[93m" ++ token ++ "\x1b[39m"

/-- The line of a walk that cannot go on, in bright red. -/
def nothingLine : String := "\x1b[91mnothing to resume from\x1b[39m"

def positionText : Option String → String
  | some token => tokenLine token ++ "\n"
  | none => nothingLine ++ "\n"

/-- All that is printed before the position. -/
def text (r : Report) : String :=
  rowsText r.rows ++ summaryText r.rows.length r.pages ++ pastText r.past

/-- How a report is printed. A position that cannot be told is the failure of the run. -/
def outcome (r : Report) : Outcome :=
  match r.position with
  | .error e => failed r.text e
  | .ok token => ⟨r.text ++ positionText token, .success⟩

end Report

variable {σ : Type} [PageSource σ] {fuel : Nat} {a : Arguments}
  {t u : Traversal σ DemoRow} {taken records left : List Record}

/-! ## Parts of the output -/

theorem rowLine_eq (row : DemoRow) : rowLine row = Report.rowText row := by
  have hstart : "\x1b[" ++ toString Colour.green.code ++ "m" = "\x1b[92m" := by decide +kernel
  have hstop : "\x1b[39m" ++ " " = "\x1b[39m " := by decide +kernel
  rw [rowLine, painted, hstart, Report.rowText, ← hstop]
  simp only [String.append_assoc]

theorem summary_eq (output : String) (count pages : Nat) :
    output ++ painted .blue (toString count) ++ " results over " ++
      painted .blue (toString pages) ++ " pages\n" = output ++ Report.summaryText count pages := by
  have hstart : "\x1b[" ++ toString Colour.blue.code ++ "m" = "\x1b[94m" := by decide +kernel
  have hbetween : "\x1b[39m" ++ (" results over " ++ "\x1b[94m") =
      "\x1b[39m results over \x1b[94m" := by decide +kernel
  have hstop : "\x1b[39m" ++ " pages\n" = "\x1b[39m pages\n" := by decide +kernel
  rw [painted, painted, hstart, Report.summaryText, ← hbetween, ← hstop]
  simp only [String.append_assoc]

theorem past_eq (more : Bool) : "results past limit: " ++ painted .yellow (toString more) ++ "\n" =
    Report.pastText (some more) := by
  cases more <;> decide +kernel

/-- The token that a walk is printed with. -/
def tokenFor (a : Arguments) (t : Traversal σ DemoRow) : Except PagingError (Option String) :=
  if PageSource.kind t.source = .batchGet then .ok none else t.encodePosition a.hashKey.isSome

theorem positionLine_eq (a : Arguments) (t : Traversal σ DemoRow) :
    positionLine a t = (tokenFor a t).map Report.positionText := by
  have htoken : (if PageSource.kind t.source = .batchGet then .ok none
      else if a.hashKey.isSome then t.positionWithoutHashKey else t.position) = tokenFor a t := by
    rw [tokenFor]
    cases a.hashKey <;> rfl
  have hsome (token : String) :
      "position: " ++ painted .yellow token ++ "\n" = Report.positionText (some token) := by
    have hstart : "position: " ++ ("\x1b[" ++ toString Colour.yellow.code ++ "m") =
        "position: \x1b[93m" := by decide +kernel
    rw [Report.positionText, Report.tokenLine, ← hstart, painted]
    simp only [String.append_assoc]
  have hnone : painted .red "nothing to resume from" ++ "\n" = Report.positionText none := by
    decide +kernel
  rw [positionLine, htoken]
  rcases tokenFor a t with e | _ | token
  · rfl
  · exact congrArg Except.ok hnone
  · exact congrArg Except.ok (hsome token)

theorem printRows_pulls (h : t.Pulls fuel taken u) :
    ∀ {rows : List DemoRow} {steps count : Nat} {text : String},
      taken.map t.materialize = rows.map .ok → rows.length < steps →
        printRows fuel steps (text, count) t =
          some (.ok
            (rows.foldl (fun text row => text ++ Report.rowText row) text, count + rows.length),
            u) := by
  induction h with
  | @stop t u next looks =>
    intro rows steps count text hrows hsteps
    obtain rfl : rows = [] := List.map_eq_nil_iff.1 hrows.symm
    obtain ⟨steps, rfl⟩ := Nat.exists_eq_succ_of_ne_zero (Nat.ne_of_gt hsteps)
    rw [printRows, next]
    rfl
  | @take t v u record taken next takes rest ih =>
    intro rows steps count text hrows hsteps
    obtain ⟨row, others, rfl, hrow, hothers⟩ := List.map_eq_cons_iff.1 hrows.symm
    obtain ⟨steps, rfl⟩ := Nat.exists_eq_succ_of_ne_zero (Nat.ne_zero_of_lt hsteps)
    rw [← takes.kept.2.2.2] at hothers
    have hprint : printRows fuel steps (text ++ Report.rowText row, count + 1) v = _ :=
      ih hothers.symm (Nat.lt_of_succ_lt_succ hsteps)
    rw [printRows, next, ← hrow]
    simp only [rowLine_eq, hprint, List.length_cons, List.foldl_cons]
    rw [Nat.add_right_comm, Nat.add_assoc]

/-- A walk after all questions are asked. -/
structure Finished (source : σ) (codec : PositionCodec) (limit : Option Nat) (taken : List Record)
    (u : Traversal σ DemoRow) : Prop where
  exhausted : u.phase = .exhausted ↔ ∀ n, limit = some n → taken.length < n
  last : u.lastExamined = taken.getLast?
  codec : u.codec = codec
  leads : Relation.ReflTransGen Leads source u.source

theorem Finished.looks {source : σ} {codec : PositionCodec} {limit : Option Nat}
    (h : Finished source codec limit taken t) (hlooks : Traversal.Looks t u)
    (hphase : u.phase = t.phase) : Finished source codec limit taken u := by
  obtain ⟨-, hlast, hcodec, -⟩ := hlooks.kept
  exact ⟨by rw [hphase, h.exhausted], hlast.trans h.last, hcodec.trans h.codec,
    h.leads.trans hlooks.leads⟩

theorem pastLimitLine_over (h : u.Over fuel left)
    (hbounded : u.limit.isBounded = a.limit.isSome) :
    ∃ v, pastLimitLine fuel a u =
        some (.ok (Report.pastText (a.limit.map fun _ => !left.isEmpty)), v) ∧
      Traversal.Looks u v ∧ v.phase = u.phase := by
  cases hlimit : a.limit with
  | none => exact ⟨u, by rw [pastLimitLine, hlimit]; rfl, .refl, rfl⟩
  | some n =>
    rw [hlimit] at hbounded
    obtain ⟨v, hanswer, hlooks, hphase⟩ := Traversal.hasResultsPastLimit_of_over h hbounded
    refine ⟨v, ?_, hlooks, hphase⟩
    rw [pastLimitLine, hlimit]
    simp only [hanswer, past_eq]
    rfl

/-! ## The whole output -/

theorem exhausted_iff {limit : Option Nat} (hover : u.Over fuel left)
    (hkept : Traversal.PullKept t taken u) (hlimit : t.limit = .upTo limit)
    (htaken : ∀ n, limit = some n → taken.length ≤ n) :
    u.phase = .exhausted ↔ ∀ n, limit = some n → taken.length < n := by
  have hreached : u.limit.isReached = decide (limit.map (· - taken.length) = some 0) := by
    rw [hkept.limit, hlimit]
    rfl
  cases hover with
  | used phase reached holds =>
    rw [hreached, decide_eq_true_eq, Option.map_eq_some_iff] at reached
    obtain ⟨n, hn, hzero⟩ := reached
    simp only [phase, reduceCtorEq, false_iff, not_forall]
    exact ⟨n, hn, by omega⟩
  | dry phase reached none_left spent =>
    rw [hreached, decide_eq_false_iff_not] at reached
    simp only [phase, true_iff]
    intro n hn
    have hle := htaken n hn
    have hne : n - taken.length ≠ 0 := fun hzero => reached (by rw [hn, Option.map_some, hzero])
    omega

theorem isReached_upTo {limit : Option Nat} (h : limit ≠ some 0) :
    (Limit.upTo limit).isReached = false := by
  cases limit with
  | none => rfl
  | some n => exact decide_eq_false h

/-- **A walk over whole pages** pulls its records up to its limit, on as few pages as they need. -/
theorem exists_finished (hlaw : Truthful σ) {p : Pager σ DemoRow} {limit : Option Nat} {size : Nat}
    (hlimit : p.limit = .upTo limit) (hopen : limit ≠ some 0) (hsize : 1 ≤ size)
    (hpaged : Paged size p.source records) (hfuel : records.length < fuel) :
    ∃ u, p.traversal.Pulls fuel (records.take (limit.getD records.length)) u ∧
      u.Over fuel (records.drop (records.take (limit.getD records.length)).length) ∧
      u.pages = max (PageSource.hasMore p.source).toNat
        ((records.take (limit.getD records.length)).length ⌈/⌉ size) ∧
      u.limit.isBounded = limit.isSome ∧
      Finished p.source p.codec limit (records.take (limit.getD records.length)) u := by
  have hstart : p.traversal.limit = .upTo limit := hlimit
  obtain ⟨outcomes, hplays, hfetches, heffective⟩ := hpaged.exists_plays hsize
  have hholds : p.traversal.Holds fuel records none :=
    ⟨outcomes, hplays, by omega, by rw [heffective]; rfl, by rw [heffective]⟩
  obtain ⟨u, hpulls, hover⟩ :=
    Traversal.exists_pulls hlaw hholds (by simp [Pager.traversal, Traversal.start])
  rw [hstart, Limit.cut_upTo] at hpulls hover
  have hkept := hpulls.kept
  refine ⟨u, hpulls, hover, ?_, ?_, exhausted_iff hover hkept hlimit fun n hn => ?_, ?_,
    hkept.codec, hkept.leads⟩
  · rw [Traversal.pages_of_pulls hpaged hsize (hlimit ▸ isReached_upTo hopen) hpulls]
  · rw [hkept.limit, hstart]
    rfl
  · rw [hn]
    exact List.length_take_le _ _
  · rw [hkept.last]
    exact Option.or_none

/-- **A run prints the report of its walk** if all records can be printed. -/
theorem drain_eq_report (hlaw : Truthful σ) {pager p : Pager σ DemoRow} {size : Nat}
    (hconfigure : configure a pager = .ok p) (hlimit : p.limit = .upTo a.limit)
    (hopen : a.limit ≠ some 0) (hsize : 1 ≤ size) (hpaged : Paged size p.source records)
    {rows : List DemoRow} (hrows : records.map p.materialize = rows.map .ok)
    (hfuel : rows.length < fuel) :
    ∃ v, drain fuel a pager = some (Report.outcome
        ⟨rows.take (a.limit.getD rows.length), max (PageSource.hasMore p.source).toNat
            ((rows.take (a.limit.getD rows.length)).length ⌈/⌉ size),
          a.limit.map fun _ => decide (a.limit.getD rows.length < rows.length), tokenFor a v⟩) ∧
      Finished p.source p.codec a.limit (records.take (a.limit.getD rows.length)) v := by
  have hlength : records.length = rows.length := by
    have hlengths := congrArg List.length hrows
    rwa [List.length_map, List.length_map] at hlengths
  obtain ⟨u, hpulls, hover, hpages, hbounded, hfinished⟩ :=
    exists_finished hlaw hlimit hopen hsize hpaged (hlength ▸ hfuel)
  rw [hlength] at hpulls hover hpages hfinished
  have htaken : (records.take (a.limit.getD rows.length)).map p.traversal.materialize =
      (rows.take (a.limit.getD rows.length)).map .ok := by
    rw [List.map_take, List.map_take, ← hrows]
    rfl
  have hprint : printRows fuel fuel ("", 0) p.traversal = _ :=
    printRows_pulls hpulls htaken (Nat.lt_of_le_of_lt (List.length_take_le' _ _) hfuel)
  obtain ⟨v, hpast, hlooks, hphase⟩ := pastLimitLine_over hover hbounded
  have hleft : (!(records.drop (records.take (a.limit.getD rows.length)).length).isEmpty) =
      decide (a.limit.getD rows.length < rows.length) := by
    rw [Bool.eq_iff_iff]
    simp only [Bool.not_eq_true', List.isEmpty_eq_false_iff, ne_eq, List.drop_eq_nil_iff,
      List.length_take, decide_eq_true_eq]
    omega
  have hcount : (records.take (a.limit.getD rows.length)).length =
      (rows.take (a.limit.getD rows.length)).length := by
    rw [List.length_take, List.length_take, hlength]
  rw [hleft] at hpast
  rw [hcount] at hpages
  refine ⟨v, ?_, hfinished.looks hlooks hphase⟩
  rw [drain, hconfigure]
  simp only [Pager.iterate, hprint, hpast, positionLine_eq, summary_eq, hpages, Nat.zero_add]
  rw [Report.outcome]
  rcases tokenFor a v with e | token <;> rfl

end CommandLine

end CursorPaging
