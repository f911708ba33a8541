import CursorPaging.Settings.Reader

/-!
# TOML texts and names

* `Toml.foldBreaks`: line ends are line feeds;
* `Toml.quoted`: a string, in one or three quotation marks;
* **`Toml.dottedName`**: names with points between them.
-/

namespace CursorPaging

namespace Toml

/-- A text in which a carriage return before a line feed is left out. -/
def foldBreaks : List Char → List Char
  | '\r' :: '\n' :: rest => '\n' :: foldBreaks rest
  | c :: rest => c :: foldBreaks rest
  | [] => []

/-- Characters that may stand in comments and, but for delete, in strings. -/
def isVisible (c : Char) : Bool := c = '\t' || 0x20 ≤ c.toNat

/-- Characters that may stand in strings as they are. -/
def isTextChar (c : Char) : Bool := isVisible c && c.toNat ≠ 0x7F

/-- Characters of names and numbers that stand without quotation marks. -/
def isBare (c : Char) : Bool := c.isAlphanum || c = '_' || c = '-'

/-- A word without quotation marks. -/
def bareWord (text : List Char) : List Char × List Char :=
  (text.takeWhile isBare, text.dropWhile isBare)

/-! ## Strings -/

/-- What follows a backslash and a gap: the gap has a line end, and everything up to the next
character that is no gap is left out. At the end of the text nothing is left to read. -/
def lineContinuation (text : List Char) : Option (List Char) :=
  match text.dropWhile isBlank with
  | '\n' :: rest => some (rest.dropWhile fun c => isBlank c || c = '\n')
  | [] => some []
  | _ => none

/-- The characters that an escape stands for, the backslash gone. -/
def escape (multiline : Bool) : Reader (List Char)
  | '"' :: rest => some (['"'], rest)
  | '\\' :: rest => some (['\\'], rest)
  | 'b' :: rest => some (['\x08'], rest)
  | 'f' :: rest => some (['\x0c'], rest)
  | 'n' :: rest => some (['\n'], rest)
  | 'r' :: rest => some (['\r'], rest)
  | 't' :: rest => some (['\t'], rest)
  | 'u' :: rest => (codedChar 4 rest).map fun (c, rest) => ([c], rest)
  | 'U' :: rest => (codedChar 8 rest).map fun (c, rest) => ([c], rest)
  | c :: rest =>
    if multiline && (isBlank c || c = '\n') then
      (lineContinuation (c :: rest)).map fun rest => ([], rest)
    else none
  | [] => none

/-- The characters up to the closing marks. Three marks close a string of several lines; up to two
more right after them are part of it. -/
def stringBody (mark : Char) (multiline : Bool) : Nat → Reader (List Char)
  | 0, _ => none
  | _ + 1, [] => none
  | fuel + 1, c :: rest =>
    let add (cs : List Char) (rest : List Char) :=
      (stringBody mark multiline fuel rest).map fun (more, rest) => (cs ++ more, rest)
    if c = mark then
      if multiline then
        let marks := ((c :: rest).takeWhile (· = mark)).length
        if marks < 3 then add (List.replicate marks mark) ((c :: rest).drop marks)
        else
          let more := min (marks - 3) 2
          some (List.replicate more mark, (c :: rest).drop (3 + more))
      else some ([], rest)
    else if c = '\n' then if multiline then add [c] rest else none
    else if c = '\\' && mark = '"' then
      match escape multiline rest with
      | some (cs, rest) => add cs rest
      | none => none
    else if isTextChar c then add [c] rest
    else none

/-- A string after its first quotation mark, and whether it may have several lines. A line end right
after three marks is left out. -/
def quoted (mark : Char) (text : List Char) : Option (String × Bool × List Char) :=
  let read (multiline : Bool) (text : List Char) :=
    (stringBody mark multiline (text.length + 1) text).map fun (cs, rest) =>
      (String.ofList cs, multiline, rest)
  match text with
  | a :: b :: rest =>
    if a = mark && b = mark then
      read true (match rest with
        | '\n' :: rest => rest
        | rest => rest)
    else if a = mark then some ("", false, b :: rest)
    else read false text
  | [a] => if a = mark then some ("", false, []) else none
  | [] => none

/-! ## Names -/

/-- One part of a name: a bare word or a string on one line. -/
def namePart (text : List Char) : Option (String × List Char) :=
  match text with
  | [] => none
  | c :: rest =>
    if c = '"' || c = '\'' then
      match quoted c rest with
      | some (name, false, rest) => some (name, rest)
      | _ => none
    else
      let (word, rest) := bareWord text
      if word.isEmpty then none else some (String.ofList word, rest)

/-- A name with points between its parts, and blanks around them. -/
def dottedName : Nat → Reader (List String)
  | 0, _ => none
  | fuel + 1, text =>
    match namePart (text.dropWhile isBlank) with
    | none => none
    | some (part, rest) =>
      match rest.dropWhile isBlank with
      | '.' :: rest => (dottedName fuel rest).map fun (parts, rest) => (part :: parts, rest)
      | rest => some ([part], rest)

end Toml

end CursorPaging
