import CursorPaging.Number.Integer
import CursorPaging.Settings.Document
import CursorPaging.Settings.Reader

/-!
# Paths of settings

Names such as `paging.page_size` or `paging[0]` stand for paths. A name that does not read as a
path is one member of that very name.

* `Step.ofText?`: the steps after the first name;
* **`pathOf`**.
-/

namespace CursorPaging

/-- Characters of the names in a path: ASCII letters and digits, blanks, underscores, dashes. -/
def isPathChar (c : Char) : Bool := c.isAlphanum || c = ' ' || c = '_' || c = '-'

/-- The number in brackets, with blanks around it, and what follows. -/
def bracketed (text : List Char) : Option (Int × List Char) :=
  let text := text.dropWhile isBlank
  let (minus, rest) := match text with
    | '-' :: rest => (['-'], rest)
    | rest => ([], rest)
  let digits := rest.takeWhile Char.isDigit
  match (rest.drop digits.length).dropWhile isBlank with
  | ']' :: rest => (Integer.signed? 64 (String.ofList (minus ++ digits))).map fun n => (n, rest)
  | _ => none

/-- The steps that a text spells: names after points and numbers in brackets. -/
def Step.ofText? : Nat → List Char → Option (List Step)
  | _, [] => some []
  | 0, _ => none
  | fuel + 1, '.' :: rest =>
    let name := rest.takeWhile isPathChar
    if name.isEmpty then none
    else (Step.ofText? fuel (rest.drop name.length)).map (.member (String.ofList name) :: ·)
  | fuel + 1, '[' :: rest =>
    match bracketed rest with
    | some (index, rest) => (Step.ofText? fuel rest).map (.item index :: ·)
    | none => none
  | _ + 1, _ => none

/-- The path that a name stands for. -/
def pathOf (name : String) : List Step :=
  match Step.ofText? (name.length + 1) ('.' :: name.toList) with
  | some path => path
  | none => [.member name]

end CursorPaging
