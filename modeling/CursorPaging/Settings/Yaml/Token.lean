import CursorPaging.Settings.Yaml.Scalar

/-!
# YAML tokens

A text as a list of tokens. Indentation shows as tokens that open and close blocks. Whether
something is the name of a member is only known at the colon after it, so each place where a name
may have begun is kept, and the tokens that announce a name are put in there afterwards.

* `Token`;
* `Scan`: a text that is read up to some place; `Scan.step` reads one token;
* **`tokens?`**.
-/

namespace CursorPaging

namespace Yaml

/-- The parts of a text. -/
inductive Token where
  /-- A line that begins with a percent sign. -/
  | directive
  | documentStart
  | documentEnd
  | listStart
  | tableStart
  /-- The end of a list or table that indentation opened. -/
  | blockEnd
  | flowListStart
  | flowListEnd
  | flowTableStart
  | flowTableEnd
  /-- The dash before an item. -/
  | item
  /-- The comma in brackets. -/
  | comma
  /-- What follows is the name of a member. -/
  | name
  /-- What follows is the value of a member. -/
  | value
  /-- Stands for the node with an anchor. -/
  | reference (anchor : String)
  | anchor (name : String)
  /-- A tag, with its name if it is one of those that all texts know. -/
  | tag (known : Option String)
  | plain (text : String)
  | quoted (text : String)
  deriving DecidableEq, Repr

/-! ## Directives, anchors and tags -/

/-- A number of one to nine digits. -/
def versionNumber (p : Place) : Option Place :=
  let length := (p.takeWhile Char.isDigit).length
  if 0 < length && length ≤ 9 then some (p.after length) else none

/-- The version that a directive names: two numbers with a point between them. -/
def version (p : Place) : Option Place :=
  match versionNumber (p.skipWhile isBlank) with
  | none => none
  | some p => if p.peek 0 = some '.' then versionNumber p.next else none

/-- The start of a tag: an exclamation mark, and a name that may end in another one. -/
def tagHandle (p : Place) : Option (List Char × Place) :=
  if p.peek 0 ≠ some '!' then none
  else
    let name := p.next.takeWhile isNameChar
    let p := p.next.after name.length
    if p.peek 0 = some '!' then some ('!' :: name ++ ['!'], p.next) else some ('!' :: name, p)

/-- Characters of a tag other than escapes. -/
def isTagChar (c : Char) : Bool := isNameChar c || ";/?:@&=+$,.!~*'()[]".toList.contains c

/-- How many escaped bytes make a character, by the first of them. -/
def escapedLength? (byte : Nat) : Option Nat :=
  if byte < 0x80 then some 1
  else if byte < 0xC0 then none
  else if byte < 0xE0 then some 2
  else if byte < 0xF0 then some 3
  else if byte < 0xF8 then some 4
  else none

/-- The byte that a percent sign and two digits stand for. -/
def escapedByte? (p : Place) : Option Nat :=
  match p.rest with
  | '%' :: a :: b :: _ =>
    if isDigitOf 16 a && isDigitOf 16 b then some (numberOf 16 [a, b]) else none
  | _ => none

/-- The rest of an escaped character, whose bytes make a number in base 256. -/
def escapedRest : Nat → (code : Nat) → Place → Option (Char × Place)
  | 0, code, p => (charOf? code).map fun c => (c, p)
  | n + 1, code, p =>
    match escapedByte? p with
    | some byte =>
      if 0x80 ≤ byte ∧ byte < 0xC0 then escapedRest n (code * 256 + byte) (p.after 3) else none
    | none => none

/-- The characters of a tag. -/
def tagText : Nat → Place → Option (List Char × Place)
  | 0, _ => none
  | fuel + 1, p =>
    match p.peek 0 with
    | none => some ([], p)
    | some c =>
      if c = '%' then
        match (escapedByte? p).bind fun byte =>
          (escapedLength? byte).bind fun length => escapedRest (length - 1) byte (p.after 3) with
        | none => none
        | some (c, p) => (tagText fuel p).map fun (cs, p) => (c :: cs, p)
      else if isTagChar c then (tagText fuel p.next).map fun (cs, p) => (c :: cs, p)
      else some ([], p)

/-- The characters of a tag, one at least. -/
def tagText? (p : Place) : Option (List Char × Place) :=
  match tagText (p.rest.length + 1) p with
  | some (text, p) => if text.isEmpty then none else some (text, p)
  | none => none

/-- What a directive for tags says: the start that tags may have, and what it stands for. -/
def tagDirective (p : Place) : Option Place :=
  match tagHandle (p.skipWhile isBlank) with
  | none => none
  | some (handle, p) =>
    if handle ≠ ['!'] ∧ handle.getLast? ≠ some '!' then none
    else match tagText? (p.skipWhile isBlank) with
      | some (_, p) => if endsWord (p.peek 0) then some p else none
      | none => none

/-- The place after a directive, which takes its line. -/
def directive (p : Place) : Option Place :=
  let name := p.next.takeWhile isNameChar
  let p := p.next.after name.length
  if name.isEmpty || !endsWord (p.peek 0) then none
  else
    let body :=
      if name = "YAML".toList then version p
      else if name = "TAG".toList then tagDirective p
      else some p.lineEnd
    body.bind fun p =>
      let p := p.skipWhile isBlank
      let p := if p.peek 0 = some '#' then p.lineEnd else p
      if endsLine (p.peek 0) then some p.skipBreak else none

/-- The name after the sign of an anchor or reference. -/
def anchorName (p : Place) : Option (String × Place) :=
  let name := p.next.takeWhile isNameChar
  let p := p.next.after name.length
  let ends := endsWord (p.peek 0) ||
    (p.peek 0).any fun c => "?:,]\x7d%@".toList.contains c || c = Char.ofNat 96
  if name.isEmpty || !ends then none else some (String.ofList name, p)

/-- A tag: in angle brackets, or after a start. The known tags start with two exclamation marks. -/
def tag (p : Place) : Option (Option String × Place) :=
  let found : Option (Option String × Place) :=
    if p.peek 1 = some '<' then
      match tagText? (p.after 2) with
      | some (_, p) => if p.peek 0 = some '>' then some (none, p.next) else none
      | none => none
    else match tagHandle p with
      | none => none
      | some (handle, p) =>
        if handle.length ≥ 2 ∧ handle.getLast? = some '!' then
          (tagText? p).map fun (text, p) =>
            (if handle = ['!', '!'] then some (String.ofList text) else none, p)
        else (tagText (p.rest.length + 1) p).map fun (_, p) => (none, p)
  found.filter fun (_, p) => endsWord (p.peek 0)

/-! ## Scanning -/

/-- Where a name may have begun. -/
structure NameMark where
  /-- Whether nothing else can stand there. -/
  required : Bool
  /-- How many tokens were before. -/
  token : Nat
  index : Nat
  line : Nat
  column : Nat
  deriving DecidableEq, Repr

/-- A text that is read up to some place. -/
structure Scan where
  place : Place
  tokens : List Token
  /-- Whether a name may begin here. -/
  mayName : Bool
  /-- Where a name may have begun, outside and in each open bracket, the innermost first. -/
  marks : List (Option NameMark)
  /-- The column of the innermost block, `-1` if there is none. -/
  indent : Int
  /-- The columns of the blocks around it. -/
  outer : List Int
  /-- Where the last quoted scalar ended. In brackets its value may follow right there. -/
  quoteEnd : Nat
  ended : Bool
  deriving DecidableEq, Repr

namespace Scan

/-- Nothing read yet. -/
def start (text : List Char) : Scan := ⟨.start text, [], true, [none], -1, [], 0, false⟩

/-- How many brackets are open. -/
def depth (s : Scan) : Nat := s.marks.length - 1

def inFlow (s : Scan) : Bool := 0 < s.depth

/-- How many brackets may be open. -/
def maxDepth : Nat := 255

def emit (token : Token) (s : Scan) : Scan := { s with tokens := s.tokens ++ [token] }

def moveTo (p : Place) (s : Scan) : Scan := { s with place := p }

def allowName (allowed : Bool) (s : Scan) : Scan := { s with mayName := allowed }

/-! ### Names -/

/-- A mark as long as a name can still be meant: a name takes one line and at most 1024 characters.
It is an error if a required name is none. -/
def freshMark (p : Place) : Option NameMark → Option (Option NameMark)
  | none => some none
  | some mark =>
    if mark.line < p.line ∨ mark.index + 1024 < p.index then
      if mark.required then none else some none
    else some (some mark)

/-- Forget the names that cannot be meant any more. -/
def dropStale (s : Scan) : Option Scan :=
  (s.marks.mapM (freshMark s.place)).map fun marks => { s with marks }

/-- Forget the innermost name, as something else is meant. -/
def dropName (s : Scan) : Option Scan :=
  match s.marks with
  | some mark :: rest => if mark.required then none else some { s with marks := none :: rest }
  | _ => some s

/-- Keep in mind that a name may begin here. -/
def markName (s : Scan) : Option Scan :=
  if s.mayName then
    let p := s.place
    let required := s.inFlow && s.indent = p.column
    s.dropName.map fun s =>
      { s with marks := some ⟨required, s.tokens.length, p.index, p.line, p.column⟩ ::
        s.marks.drop 1 }
  else some s

/-! ### Blocks -/

/-- The blocks that end before a column: how many, and what is left of the columns. -/
def endedBlocks (column : Int) : (indent : Int) → (outer : List Int) → Nat × Int × List Int
  | indent, [] => (0, indent, [])
  | indent, next :: outer =>
    if column < indent then
      let (n, rest) := endedBlocks column next outer
      (n + 1, rest)
    else (0, indent, next :: outer)

/-- Close the blocks that end before a column. Brackets keep them open. -/
def closeTo (column : Int) (s : Scan) : Scan :=
  if s.inFlow then s
  else
    let (n, indent, outer) := endedBlocks column s.indent s.outer
    { s with tokens := s.tokens ++ List.replicate n .blockEnd, indent, outer }

/-- Open a block in a column that is further in, its token put in after so many. -/
def openAt (position column : Nat) (token : Token) (s : Scan) : Scan :=
  if !s.inFlow && s.indent < column then
    { s with
      tokens := s.tokens.insertIdx position token
      indent := column
      outer := s.indent :: s.outer }
  else s

/-- Open a block here. -/
def openHere (token : Token) (s : Scan) : Scan :=
  s.openAt s.tokens.length s.place.column token

/-! ### Between tokens -/

/-- Skip blanks, line ends and comments. A name may begin on a new line. -/
def skipGap : Nat → Scan → Scan
  | 0, s => s
  | fuel + 1, s =>
    match s.place.peek 0 with
    | some ' ' => skipGap fuel (s.moveTo s.place.next)
    | some '\t' => if s.inFlow || !s.mayName then skipGap fuel (s.moveTo s.place.next) else s
    | some '#' => skipGap fuel (s.moveTo s.place.lineEnd)
    | some c =>
      if isBreak c then
        skipGap fuel ((s.moveTo s.place.skipBreak).allowName (s.mayName || !s.inFlow))
      else s
    | none => s

/-! ### Tokens -/

/-- The end of the text closes all blocks. -/
def finish (s : Scan) : Option Scan :=
  (s.closeTo (-1)).dropName.map fun s => { s with ended := true }

/-- A directive, or the mark between documents. -/
def between (token : Token) (read : Place → Option Place) (s : Scan) : Option Scan :=
  match (s.closeTo (-1)).dropName with
  | none => none
  | some s => (read s.place).map fun p => ((s.moveTo p).allowName false).emit token

def openBracket (token : Token) (s : Scan) : Option Scan :=
  match s.markName with
  | none => none
  | some s =>
    if s.depth < maxDepth then
      some ((({ s with marks := none :: s.marks }).moveTo s.place.next).allowName true |>.emit token)
    else none

def closeBracket (token : Token) (s : Scan) : Option Scan :=
  s.dropName.map fun s =>
    let s := if s.inFlow then { s with marks := s.marks.drop 1 } else s
    ((s.moveTo s.place.next).allowName false).emit token

def comma (s : Scan) : Option Scan :=
  s.dropName.map fun s => ((s.moveTo s.place.next).allowName true).emit .comma

/-- The dash of an item, which stands where a name may begin and never in brackets. -/
def item (s : Scan) : Option Scan :=
  if s.inFlow || !s.mayName then none
  else (s.openHere .listStart).dropName.map fun s =>
    ((s.moveTo s.place.next).allowName true).emit .item

/-- The question mark before a name. -/
def longName (s : Scan) : Option Scan :=
  if !s.inFlow && !s.mayName then none
  else (s.openHere .tableStart).dropName.map fun s =>
    ((s.moveTo s.place.next).allowName (!s.inFlow)).emit .name

/-- The colon before a value. If a name may have begun, the token of that name is put in before it,
and the start of its table if it is the first one. -/
def valueMark (s : Scan) : Option Scan :=
  match s.marks with
  | some mark :: rest =>
    let s := { s with tokens := s.tokens.insertIdx mark.token .name, marks := none :: rest }
    let s := s.openAt mark.token mark.column .tableStart
    some (((s.moveTo s.place.next).allowName false).emit .value)
  | _ =>
    if !s.inFlow && !s.mayName then none
    else
      let s := s.openHere .tableStart
      some (((s.moveTo s.place.next).allowName (!s.inFlow)).emit .value)

/-- A token that is read from its place on and may be a name. -/
def named (read : Place → Option (Token × Place)) (s : Scan) : Option Scan :=
  match s.markName with
  | none => none
  | some s => (read s.place).map fun (token, p) => ((s.moveTo p).allowName false).emit token

def block (literal : Bool) (s : Scan) : Option Scan :=
  match s.markName with
  | none => none
  | some s =>
    (blockScalar literal s.indent s.place).map fun (text, p) =>
      ((s.moveTo p).allowName true).emit (.quoted (String.ofList text))

def quote (double : Bool) (s : Scan) : Option Scan :=
  (s.named fun p => (quotedScalar double p).map fun (text, p) =>
    (.quoted (String.ofList text), p)).map fun s => { s with quoteEnd := s.place.index }

def plain (s : Scan) : Option Scan :=
  match s.markName with
  | none => none
  | some s =>
    (plainScalar (s.indent + 1) s.inFlow s.place).map fun (text, broken, p) =>
      ((s.moveTo p).allowName broken).emit (.plain (String.ofList text))

/-- Whether the colon here is one before a value. -/
def atValueMark (s : Scan) : Bool :=
  endsWord (s.place.peek 1) ||
    (s.inFlow && ((s.place.peek 1).any isFlowMark || s.place.index = s.quoteEnd))

/-- Read one token. -/
def step (s : Scan) : Option Scan :=
  match (s.skipGap (s.place.rest.length + 1)).dropStale with
  | none => none
  | some s =>
    let s := s.closeTo s.place.column
    let wordEnds := endsWord (s.place.peek 1)
    match s.place.peek 0 with
    | none => s.finish
    | some c =>
      if s.place.column = 0 && c = '%' then s.between .directive directive
      else if s.place.atMark '-' then s.between .documentStart fun p => some (p.after 3)
      else if s.place.atMark '.' then s.between .documentEnd fun p => some (p.after 3)
      else if c = '[' then s.openBracket .flowListStart
      else if c = '\x7b' then s.openBracket .flowTableStart
      else if c = ']' then s.closeBracket .flowListEnd
      else if c = '\x7d' then s.closeBracket .flowTableEnd
      else if c = ',' then s.comma
      else if c = '-' && wordEnds then s.item
      else if c = '?' && wordEnds then s.longName
      else if c = ':' && s.atValueMark then s.valueMark
      else if c = '*' then
        s.named fun p => (anchorName p).map fun (name, p) => (.reference name, p)
      else if c = '&' then s.named fun p => (anchorName p).map fun (name, p) => (.anchor name, p)
      else if c = '!' then s.named fun p => (tag p).map fun (known, p) => (.tag known, p)
      else if c = '|' && !s.inFlow then s.block true
      else if c = '>' && !s.inFlow then s.block false
      else if c = '\'' then s.quote false
      else if c = '"' then s.quote true
      else if c = '%' || c = '@' || c = Char.ofNat 96 then none
      else s.plain

/-- Read to the end. -/
def run : Nat → Scan → Option (List Token)
  | 0, _ => none
  | fuel + 1, s => if s.ended then some s.tokens else s.step.bind (run fuel)

end Scan

/-- The tokens of a text. -/
def tokens? (text : List Char) : Option (List Token) :=
  Scan.run (text.length + 2) (.start text)

end Yaml

end CursorPaging
