import CursorPaging.CommandLine.Arguments
import CursorPaging.CommandLine.Demo
import CursorPaging.Pager
import CursorPaging.Settings.Load

/-!
# Running the command line

Seed a table, page through it, and print the rows, a count, and where to go on.

* `Colour`, `painted`;
* `CommandLine.Failure`, `CommandLine.Outcome`;
* `CommandLine.drain`: page through one source and print what it returns;
* **`CommandLine.run`**.
-/

namespace CursorPaging

/-- The bright colours of a terminal. -/
inductive Colour where
  | red
  | green
  | yellow
  | blue
  deriving DecidableEq, Repr

def Colour.code : Colour → Nat
  | .red => 91
  | .green => 92
  | .yellow => 93
  | .blue => 94

/-- A text in a colour, after which the terminal's own comes back. -/
def painted (colour : Colour) (text : String) : String :=
  "\x1b[" ++ toString colour.code ++ "m" ++ text ++ "\x1b[39m"

namespace CommandLine

/-- Why a run fails. -/
inductive Failure where
  | settings (fault : Settings.Fault)
  | store (e : StoreError)
  | paging (e : PagingError)
  deriving DecidableEq, Repr

def Failure.message : Failure → String
  | .settings fault => fault.message
  | .store e => e.message
  | .paging e => e.message

/-- How the command line ends. -/
inductive Ending where
  | success
  | failure (why : Failure)
  /-- The arguments are not in order. -/
  | misuse
  deriving DecidableEq, Repr

/-- What was printed, and how it ended. -/
structure Outcome where
  output : String
  ending : Ending
  deriving DecidableEq, Repr

/-- The exit code. -/
def Outcome.exitCode (o : Outcome) : Nat :=
  match o.ending with
  | .success => 0
  | .failure _ => 1
  | .misuse => 2

/-- What is said of a run that did not succeed, apart from its output. -/
def Outcome.complaint? (o : Outcome) : Option String :=
  match o.ending with
  | .success => none
  | .failure why => some ("Error: " ++ why.message)
  | .misuse => some "error: the arguments are not in order; try '--help'"

/-- An outcome in which a paging error came after some output. -/
def failed (output : String) (e : PagingError) : Outcome := ⟨output, .failure (.paging e)⟩

variable {σ : Type} [PageSource σ]

/-- Set the limit and the position that the arguments ask for. -/
def configure (a : Arguments) (pager : Pager σ DemoRow) : Except PagingError (Pager σ DemoRow) :=
  let limited : Except PagingError Unit × Pager σ DemoRow := match a.limit with
    | none => (.ok (), pager)
    | some limit => pager.setLimit limit
  match limited with
  | (.error e, _) => .error e
  | (.ok _, pager) =>
    let placed : Except PagingError Unit × Pager σ DemoRow := match a.position, a.hashKey with
      | none, _ => (.ok (), pager)
      | some token, some hash => pager.setPositionWithHashKey token (.text hash)
      | some token, none => pager.setPosition token
    match placed with
    | (.error e, _) => .error e
    | (.ok _, pager) => .ok pager

/-- A printed row. -/
def rowLine (row : DemoRow) : String := painted .green row.id ++ " " ++ row.n.text ++ "\n"

/-- What was printed on the way and how many rows that was, or the error that came after it. -/
abbrev Printed := Except (String × PagingError) (String × Nat)

/-- Print the rows of a walk after those printed so far, `steps` at most. -/
def printRows (fuel : Nat) : Nat → String × Nat → Traversal σ DemoRow →
    Option (Printed × Traversal σ DemoRow)
  | 0, _, _ => none
  | steps + 1, (output, count), t =>
    match t.next fuel with
    | none => none
    | some (none, t) => some (.ok (output, count), t)
    | some (some (.error e), t) => some (.error (output, e), t)
    | some (some (.ok row), t) => printRows fuel steps (output ++ rowLine row, count + 1) t

/-- Whether there is more past a limit, if there is one. -/
def pastLimitLine (fuel : Nat) (a : Arguments) (t : Traversal σ DemoRow) :
    Option (Except PagingError String × Traversal σ DemoRow) :=
  match a.limit with
  | none => some (.ok "", t)
  | some _ =>
    match t.hasResultsPastLimit fuel with
    | none => none
    | some (.error e, t) => some (.error e, t)
    | some (.ok more, t) =>
      some (.ok ("results past limit: " ++ painted .yellow (toString more) ++ "\n"), t)

/-- Where to go on. Explicit keys have no position. -/
def positionLine (a : Arguments) (t : Traversal σ DemoRow) : Except PagingError String :=
  let token :=
    if PageSource.kind t.source = .batchGet then .ok none
    else if a.hashKey.isSome then t.positionWithoutHashKey
    else t.position
  token.map fun
    | some token => "position: " ++ painted .yellow token ++ "\n"
    | none => painted .red "nothing to resume from" ++ "\n"

/-- Page through a source and print everything it returns. -/
def drain (fuel : Nat) (a : Arguments) (pager : Pager σ DemoRow) : Option Outcome :=
  match configure a pager with
  | .error e => some (failed "" e)
  | .ok pager =>
    match printRows fuel fuel ("", 0) pager.iterate.1 with
    | none => none
    | some (.error (output, e), _) => some (failed output e)
    | some (.ok (rows, count), t) =>
      let output := rows ++ painted .blue (toString count) ++ " results over " ++
        painted .blue (toString t.pages) ++ " pages\n"
      match pastLimitLine fuel a t with
      | none => none
      | some (.error e, _) => some (failed output e)
      | some (.ok line, t) =>
        let output := output ++ line
        match positionLine a t with
        | .error e => some (failed output e)
        | .ok line => some ⟨output ++ line, .success⟩

/-- Page through a source that may not have come about. -/
def drainNew (fuel : Nat) (a : Arguments) (codec : PositionCodec) (source : Except PagingError σ) :
    Option Outcome :=
  match source with
  | .error e => some (failed "" e)
  | .ok source => drain fuel a (Pager.make source codec DemoRow.ofRecord)

/-- Page through the table as the arguments ask. -/
def page (a : Arguments) (settings : Settings) (table : Table) : Option Outcome :=
  let codec := settings.paging.codec
  let fuel := a.rowCount + 2
  match a.pagingMode with
  | .query =>
    drainNew fuel a codec
      (QuerySource.make table ⟨Demo.tableName, .text Demo.tenant, none, [], none, true⟩)
  | .scan => drainNew fuel a codec (ScanSource.make table ⟨Demo.tableName, [], none⟩)
  | .batch =>
    let keys := (List.range a.rowCount).map (Demo.key · a.rowCount)
    drainNew fuel a codec (.ok (BatchSource.make table ⟨Demo.tableName, keys⟩))

/-- Run with some arguments, files and environment variables. -/
def run (arguments : List String) (files : String → Option String)
    (environment : List (String × String)) : Option Outcome :=
  match Arguments.parse arguments with
  | .error .invalid => some ⟨"", .misuse⟩
  | .error .shortHelp => some ⟨Arguments.shortHelp, .success⟩
  | .error .longHelp => some ⟨Arguments.longHelp, .success⟩
  | .error .version => some ⟨Arguments.version, .success⟩
  | .ok a =>
    match Settings.load files environment a.confPath with
    | .error fault => some ⟨"", .failure (.settings fault)⟩
    | .ok settings =>
      match Demo.seed settings.paging a.rowCount with
      | .error e => some ⟨"", .failure (.store e)⟩
      | .ok table => page a settings table

end CommandLine

end CursorPaging
