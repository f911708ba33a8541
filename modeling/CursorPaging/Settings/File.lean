import CursorPaging.Settings.Json
import CursorPaging.Settings.Toml
import CursorPaging.Settings.Yaml
import CursorPaging.Text.Pieces

/-!
# Settings files

Which file a path means, and what is in it. A path may leave out the ending of a file's name.

* `Settings.Format`: the notations, by the ending of a name;
* `Settings.candidates`: the files that a path may mean;
* **`Settings.find?`**: the first of them.
-/

namespace CursorPaging

namespace Settings

/-- The notations of settings files. -/
inductive Format where
  | yaml
  | json
  | toml
  deriving DecidableEq, Repr

/-- The notation of files with an ending. -/
def Format.ofEnding? (ending : String) : Option Format :=
  if ending = "yml" || ending = "yaml" then some .yaml
  else if ending = "json" then some .json
  else if ending = "toml" then some .toml
  else none

/-- The document of a text in a notation. -/
def Format.parse? : Format → String → Option Document
  | .yaml => Yaml.parse?
  | .json => Json.parse?
  | .toml => Toml.parse?

/-- The ending of a file's name after its last point, none if it only starts with one. -/
def ending (path : String) : String :=
  let file := ((pieces '/' path.toList).getLast?).getD []
  match (pieces '.' file).reverse with
  | last :: before :: more => if more.isEmpty && before.isEmpty then "" else String.ofList last
  | _ => ""

/-- The endings that are tried after a name that is no file. -/
def endings : List String := ["toml", "json", "yaml", "yml"]

/-- The files that a path may mean, the likeliest first: the path as it is, unless it ends like that
of a directory, and the path with each ending put after it. Parts of a path that lead nowhere are
left out. -/
def candidates (path : String) : List String :=
  let parts := pieces '/' path.toList
  let leadsOn (part : List Char) : Bool := !part.isEmpty && part ≠ ['.']
  let names := (parts.filter leadsOn).map String.ofList
  let name := (if path.startsWith "/" then "/" else "") ++ "/".intercalate names
  if names.isEmpty || names.getLast? = some ".." then []
  else (if parts.getLast?.any leadsOn then [name] else []) ++ endings.map (name ++ "." ++ ·)

/-- The file that a path means, with its text. -/
def find? (files : String → Option String) (path : String) : Option (String × String) :=
  (candidates path).findSome? fun name => (files name).map fun text => (name, text)

end Settings

end CursorPaging
