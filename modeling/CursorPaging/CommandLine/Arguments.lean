import CursorPaging.Number.Integer

/-!
# Command-line arguments

Options take a value, after `=` or as the next argument, and are given once at most. There are no
other arguments.

* `Mode`, `Arguments`, `Arguments.default`;
* `Arguments.Stop`: why there is nothing to run;
* **`Arguments.parse`**;
* `Arguments.shortHelp`, `Arguments.longHelp`, `Arguments.version`.
-/

namespace CursorPaging

/-- What to page with. -/
inductive Mode where
  | query
  | scan
  | batch
  deriving DecidableEq, Repr

def Mode.ofName? (name : String) : Option Mode :=
  if name = "query" then some .query
  else if name = "scan" then some .scan
  else if name = "batch" then some .batch
  else none

/-- The options that were given. -/
structure Arguments where
  conf : Option String
  rows : Option Nat
  mode : Option Mode
  limit : Option Nat
  position : Option String
  hashKey : Option String
  deriving DecidableEq, Repr

namespace Arguments

def empty : Arguments := ⟨none, none, none, none, none, none⟩

/-- The settings file. -/
def confPath (a : Arguments) : String := a.conf.getD "tidepool.yml"

/-- The number of rows to start with. -/
def rowCount (a : Arguments) : Nat := a.rows.getD 8

def pagingMode (a : Arguments) : Mode := a.mode.getD .query

/-- Why there is nothing to run. -/
inductive Stop where
  /-- The arguments are not in order. -/
  | invalid
  | shortHelp
  | longHelp
  | version
  deriving DecidableEq, Repr

/-- The options that take a value. -/
inductive Key where
  | conf
  | rows
  | mode
  | limit
  | position
  | hashKey
  deriving DecidableEq, Repr

def Key.ofName? (name : String) : Option Key :=
  if name = "conf" then some .conf
  else if name = "rows" then some .rows
  else if name = "mode" then some .mode
  else if name = "limit" then some .limit
  else if name = "position" then some .position
  else if name = "hash-key" then some .hashKey
  else none

def Key.ofLetter? (letter : Char) : Option Key :=
  if letter = 'c' then some .conf
  else if letter = 'r' then some .rows
  else if letter = 'm' then some .mode
  else if letter = 'l' then some .limit
  else if letter = 'p' then some .position
  else none

/-- Fill in an option that has not been given yet. -/
def once {α : Type} (given value : Option α) : Option (Option α) :=
  match given, value with
  | none, some value => some (some value)
  | _, _ => none

/-- Take the value of an option. -/
def set (a : Arguments) (key : Key) (value : String) : Option Arguments :=
  match key with
  | .conf => (once a.conf (some value)).map ({ a with conf := · })
  | .rows => (once a.rows (Integer.unsigned? 64 value)).map ({ a with rows := · })
  | .mode => (once a.mode (Mode.ofName? value)).map ({ a with mode := · })
  | .limit => (once a.limit (Integer.unsigned? 64 value)).map ({ a with limit := · })
  | .position => (once a.position (some value)).map ({ a with position := · })
  | .hashKey => (once a.hashKey (some value)).map ({ a with hashKey := · })

/-- What one argument says. -/
inductive Word where
  /-- An option and its value. -/
  | valued (key : Key) (value : String)
  /-- An option whose value is the next argument. -/
  | bare (key : Key)
  | stop (why : Stop)
  deriving DecidableEq, Repr

/-- Whether an argument can only be an option. -/
def isOption (word : String) : Bool :=
  match word.toList with
  | '-' :: _ :: _ => true
  | _ => false

/-- An option by its long name, which two dashes went before. -/
def longWord (text : List Char) : Word :=
  let name := String.ofList (text.takeWhile (· ≠ '='))
  let value := text.dropWhile (· ≠ '=')
  match Key.ofName? name, value with
  | some key, [] => .bare key
  | some key, _ :: value => .valued key (String.ofList value)
  | none, [] =>
    if name = "help" then .stop .longHelp
    else if name = "version" then .stop .version
    else .stop .invalid
  | none, _ => .stop .invalid

/-- An option by its letter, which a dash went before. What follows the letter is its value. -/
def letterWord (letter : Char) (text : List Char) : Word :=
  match Key.ofLetter? letter, text with
  | some key, [] => .bare key
  | some key, '=' :: value => .valued key (String.ofList value)
  | some key, value => .valued key (String.ofList value)
  | none, _ =>
    if letter = 'h' then .stop .shortHelp
    else if letter = 'V' then .stop .version
    else .stop .invalid

def word (text : String) : Word :=
  match text.toList with
  | '-' :: '-' :: rest => longWord rest
  | '-' :: letter :: rest => letterWord letter rest
  | _ => .stop .invalid

/-- Read the arguments one by one, added to those before. Two dashes alone end the options, and
nothing may follow them. -/
def parseFrom (a : Arguments) : List String → Except Stop Arguments
  | [] => .ok a
  | text :: rest =>
    if text = "--" then if rest.isEmpty then .ok a else .error .invalid
    else match word text with
      | .stop why => .error why
      | .valued key value =>
        match a.set key value with
        | some a => parseFrom a rest
        | none => .error .invalid
      | .bare key =>
        match rest with
        | [] => .error .invalid
        | value :: rest =>
          if isOption value then .error .invalid
          else match a.set key value with
            | some a => parseFrom a rest
            | none => .error .invalid

/-- The options that some arguments give. -/
def parse (words : List String) : Except Stop Arguments := parseFrom empty words

/-! ## Help -/

def version : String := "tidepool 0.1.0\n"

def usage : String := "Page through a seeded in memory table\n\nUsage: tidepool [OPTIONS]\n\nOptions:\n"

def shortHelp : String := usage ++ "\n".intercalate
  ["  -c, --conf <CONF>          The path to the config file for tidepool [default: tidepool.yml]",
    "  -r, --rows <ROWS>          The number of rows to seed [default: 8]",
    "  -m, --mode <MODE>          The continuation style to page with [default: query] [possible values: query, scan, batch]",
    "  -l, --limit <LIMIT>        The most results to return",
    "  -p, --position <POSITION>  A position token to resume from",
    "      --hash-key <HASH_KEY>  Supply the hash key apart from the position and leave it out of new ones",
    "  -h, --help                 Print help (see more with '--help')",
    "  -V, --version              Print version\n"]

def longHelp : String := usage ++ "\n".intercalate
  ["  -c, --conf <CONF>",
    "          The path to the config file for tidepool",
    "          ",
    "          [default: tidepool.yml]\n",
    "  -r, --rows <ROWS>",
    "          The number of rows to seed",
    "          ",
    "          [default: 8]\n",
    "  -m, --mode <MODE>",
    "          The continuation style to page with\n",
    "          Possible values:",
    "          - query: A sorted query over the seeded partition",
    "          - scan:  An unordered scan over the whole table",
    "          - batch: A batch get over every seeded key",
    "          ",
    "          [default: query]\n",
    "  -l, --limit <LIMIT>",
    "          The most results to return\n",
    "  -p, --position <POSITION>",
    "          A position token to resume from\n",
    "      --hash-key <HASH_KEY>",
    "          Supply the hash key apart from the position and leave it out of new ones\n",
    "  -h, --help",
    "          Print help (see a summary with '-h')\n",
    "  -V, --version",
    "          Print version\n"]

end Arguments

end CursorPaging
