import CursorPaging.Settings.Toml.Moment
import CursorPaging.Settings.Toml.Number
import CursorPaging.Settings.Toml.Section

/-!
# Reading TOML

Tables and lists of tables, dotted names, numbers, booleans, dates and times, strings, lists and
inline tables. No name may be set twice.

* `Toml.value`, `Toml.sections`;
* **`Toml.parse?`**.
-/

namespace CursorPaging

namespace Toml

/-- What follows a comment, which ends with its line; nothing else may end it. -/
def afterComment (text : List Char) : Option (List Char) :=
  match text.dropWhile isVisible with
  | [] => some []
  | '\n' :: rest => some rest
  | _ => none

/-- What follows blanks, line ends and comments. -/
def skipLines : Nat → List Char → Option (List Char)
  | 0, _ => none
  | fuel + 1, text =>
    match text.dropWhile isBlank with
    | '\n' :: rest => skipLines fuel rest
    | '#' :: rest =>
      match afterComment rest with
      | some rest => skipLines fuel rest
      | none => none
    | rest => some rest

/-- What follows the end of a line, before which blanks and a comment may stand. -/
def lineEnd (text : List Char) : Option (List Char) :=
  match text.dropWhile isBlank with
  | [] => some []
  | '\n' :: rest => some rest
  | '#' :: rest => afterComment rest
  | _ => none

/-! ## Values -/

/-- Whether a word that starts like a number is part of a date or time: it has a T, or a dash after
its first character that no exponent explains. -/
def isMomentWord (word : List Char) : Bool :=
  let hasExponent := (word.zip (word.drop 1)).any fun (a, b) => (a = 'e' || a = 'E') && b = '-'
  word.contains 'T' || word.contains 't' || ((word.drop 1).contains '-' && !hasExponent)

/-- A number, date or time that begins with a word. -/
def numberOrMoment (word rest : List Char) : Option (Document × List Char) :=
  if isMomentWord word || rest.head? = some ':' then
    (moment word rest).map fun (text, rest) => (.text text, rest)
  else number word rest

mutual

/-- A value. -/
def value : Nat → Reader Document
  | 0, _ => none
  | _ + 1, [] => none
  | fuel + 1, c :: rest =>
    if c = '"' || c = '\'' then
      (quoted c rest).map fun (text, _, rest) => (.text text, rest)
    else if c = '[' then (listItems fuel rest).map fun (xs, rest) => (.list xs, rest)
    else if c = '\x7b' then
      match rest.dropWhile isBlank with
      | '\x7d' :: rest => some (.table [], rest)
      | rest => inlineMembers fuel [] rest
    else if c = '+' then
      let (word, rest) := bareWord rest
      if word.isEmpty then none else number word rest
    else
      let (word, rest) := bareWord (c :: rest)
      if word = "true".toList then some (.boolean true, rest)
      else if word = "false".toList then some (.boolean false, rest)
      else if word = "inf".toList || word = "nan".toList || c = '-' || c.isDigit then
        numberOrMoment word rest
      else none

/-- The items of a list that is open. -/
def listItems : Nat → Reader (List Document)
  | 0, _ => none
  | fuel + 1, text =>
    match skipLines (text.length + 1) text with
    | none => none
    | some (']' :: rest) => some ([], rest)
    | some rest =>
      match value fuel rest with
      | none => none
      | some (x, rest) =>
        match skipLines (rest.length + 1) rest with
        | some (',' :: rest) => (listItems fuel rest).map fun (xs, rest) => (x :: xs, rest)
        | some (']' :: rest) => some ([x], rest)
        | _ => none

/-- The members of an inline table that is open, added to those before. -/
def inlineMembers : Nat → List (String × Item) → Reader Document
  | 0, _, _ => none
  | fuel + 1, before, text =>
    match dottedName (text.length + 1) text with
    | some (name, '=' :: rest) =>
      match value fuel (rest.dropWhile isBlank) with
      | none => none
      | some (v, rest) =>
        match define? name v before, rest.dropWhile isBlank with
        | some all, ',' :: rest => inlineMembers fuel all rest
        | some all, '\x7d' :: rest =>
          ((membersOf? all).bind tableOf?).map fun table => (table, rest)
        | _, _ => none
    | _ => none

end

/-! ## Documents -/

/-- The name of a header after its first bracket, whether that is doubled, and what follows the
line. -/
def header (text : List Char) : Option (List String × Bool × List Char) :=
  let (listed, text) := match text with
    | '[' :: rest => (true, rest)
    | rest => (false, rest)
  match dottedName (text.length + 1) text, listed with
  | some (name, ']' :: ']' :: rest), true => (lineEnd rest).map fun rest => (name, true, rest)
  | some (name, ']' :: rest), false => (lineEnd rest).map fun rest => (name, false, rest)
  | _, _ => none

/-- Read the sections of a text. `current` is the one whose members are read, and `before` are those
before it, the last first. -/
def sections : Nat → (current : Section) → (before : List Section) → List Char →
    Option (List Section)
  | 0, _, _, _ => none
  | fuel + 1, current, before, text =>
    match skipLines (text.length + 1) text with
    | none => none
    | some [] => some (current :: before).reverse
    | some ('[' :: rest) =>
      match header rest with
      | some (name, listed, rest) => sections fuel ⟨name, listed, []⟩ (current :: before) rest
      | none => none
    | some text =>
      match dottedName (text.length + 1) text with
      | some (name, '=' :: rest) =>
        match value (2 * rest.length + 2) (rest.dropWhile isBlank) with
        | none => none
        | some (v, rest) =>
          match define? name v current.members, lineEnd rest with
          | some members, some rest => sections fuel { current with members } before rest
          | _, _ => none
      | _ => none

/-- The text without a mark of its byte order. -/
def withoutMark : List Char → List Char
  | c :: rest => if c.toNat = 0xFEFF then rest else c :: rest
  | [] => []

/-- The table of a text. -/
def parse? (text : String) : Option Document :=
  (sections (text.length + 1) ⟨[], false, []⟩ [] (foldBreaks (withoutMark text.toList))).bind
    fun all => assemble? ((all.map (·.header.length)).foldl max 0 + 1) all

end Toml

end CursorPaging
