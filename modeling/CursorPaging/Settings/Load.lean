import CursorPaging.Settings
import CursorPaging.Settings.File
import CursorPaging.Settings.Path

/-!
# Loading settings

Settings from a file, which may be absent, overlaid by environment variables. Values are converted
to what a setting needs where that can be done.

* `Settings.Fault`: why there are no settings;
* `Settings.readFile`: what a file sets;
* `Settings.overlay`: environment variables such as `TIDEPOOL_PAGING__PAGE_SIZE`;
* `Settings.convert`: a document as settings;
* **`Settings.load`**.
-/

namespace CursorPaging

namespace Settings

/-- Why there are no settings. -/
inductive Fault where
  /-- A file that is not in its format. -/
  | malformed (file : String)
  /-- A member that has to be a table or a list. -/
  | notGroup (name : String)
  /-- A value that the setting cannot be made from. -/
  | badValue (name : String)
  deriving DecidableEq, Repr

def Fault.message : Fault → String
  | .malformed file => "failed to load config: " ++ file ++ " is malformed"
  | .notGroup name => "failed to load config: " ++ name ++ " is no table"
  | .badValue name => "failed to load config: invalid value for " ++ name

/-! ## Files -/

/-- The members of a file's document as settings; what is no table has none. -/
def ofFile (document : Document) : Document :=
  document.members.foldl (fun all (name, value) => all.setAt (pathOf name) value) (.table [])

/-- What the file of a path sets: nothing if there is no such file, or its name has no ending of a
notation. -/
def readFile (files : String → Option String) (path : String) : Except Fault Document :=
  match find? files path with
  | none => .ok (.table [])
  | some (file, text) =>
    match Format.ofEnding? (ending file) with
    | none => .ok (.table [])
    | some format =>
      match format.parse? text with
      | some document => .ok (ofFile document)
      | none => .error (.malformed file)

/-! ## The environment -/

/-- What names of environment variables for settings start with, in any case. -/
def variableStart : String := "tidepool_"

/-- A letter in lower case. The sign of the kelvin is the one letter outside ASCII that becomes an
ASCII letter; the names of settings have no others. -/
def lowerLetter (c : Char) : Char := if c.toNat = 0x212A then 'k' else c.toLower

/-- Put points for double underscores. -/
def pointed : List Char → List Char
  | '_' :: '_' :: rest => '.' :: pointed rest
  | c :: rest => c :: pointed rest
  | [] => []

/-- What the text of a variable stands for. -/
def variableValue (text : String) : Document :=
  let lower := text.toLower
  if lower = "true" then .boolean true
  else if lower = "false" then .boolean false
  else match Integer.signed? 64 text with
    | some n => .integer n
    | none =>
      match Binary64.ofText? text with
      | some x => .float x
      | none => .text text

/-- Set what one variable says, if its name is one for settings. -/
def overlayOne (document : Document) : String × String → Document
  | (variableName, text) =>
    let name := variableName.toList.map lowerLetter
    if variableStart.toList.isPrefixOf name then
      let setting := String.ofList (pointed (name.drop variableStart.length))
      document.setAt (pathOf setting) (variableValue text)
    else document

/-- Set what environment variables say. -/
def overlay (environment : List (String × String)) (document : Document) : Document :=
  environment.foldl overlayOne document

/-! ## Conversion -/

/-- A count of 64 bits. Floats are rounded, halves away from zero, and kept in range; booleans and
their names count as one and zero. -/
def count? : Document → Option Nat
  | .integer n => if n < 0 then none else some n.toNat
  | .float x => some (x.toUnsigned 64)
  | .boolean value => some (if value then 1 else 0)
  | .text text =>
    let lower := text.toLower
    if lower = "true" || lower = "on" || lower = "yes" then some 1
    else if lower = "false" || lower = "off" || lower = "no" then some 0
    else Integer.unsigned? 64 text
  | _ => none

/-- A level by its name, or by the name of the only member of a table. -/
def level? : Document → Option LogLevel
  | .text name => LogLevel.ofName? name
  | .table [(name, _)] => LogLevel.ofName? name
  | _ => none

/-- A field of a group, or its default. Fields are found by their name or position. -/
def setting {α : Type} (read : Document → Option α) (default : α) (position : Nat) (name : String)
    (document : Document) : Except Fault α :=
  match document.field? position name with
  | none => .ok default
  | some value =>
    match read value with
    | some a => .ok a
    | none => .error (.badValue name)

/-- A group of fields, or one that is empty. -/
def group (name : String) (document : Document) : Except Fault Document :=
  match document.member? name with
  | none => .ok (.table [])
  | some value => if value.isGroup then .ok value else .error (.notGroup name)

/-- The settings that a document holds or can be converted to. -/
def convert (document : Document) : Except Fault Settings := do
  let paging ← group "paging" document
  let pageSize ← setting count? PagingSettings.default.pageSize 0 "page_size" paging
  let batchMax ← setting count? PagingSettings.default.batchMax 1 "batch_get_max" paging
  let maxTokenLength ←
    setting count? PagingSettings.default.maxTokenLength 2 "max_token_len" paging
  let logging ← group "tracing" document
  let level ← setting level? LoggingSettings.default.level 0 "level" logging
  return ⟨⟨pageSize, batchMax, maxTokenLength⟩, ⟨level⟩⟩

/-- The settings of a file and the environment. -/
def load (files : String → Option String) (environment : List (String × String)) (name : String) :
    Except Fault Settings := do
  convert (overlay environment (← readFile files name))

end Settings

end CursorPaging
