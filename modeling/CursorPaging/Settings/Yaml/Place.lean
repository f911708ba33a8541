import CursorPaging.Settings.Reader

/-!
# Places in a YAML text

Indentation and the ends of lines carry meaning, so a place is what is left of the text together
with where that begins.

* `Place`, `Place.next`, `Place.after`;
* `Place.atMark`: whether a line begins that separates documents;
* `breakCount`, `joinGap`: what blanks and line ends between words stand for.
-/

namespace CursorPaging

namespace Yaml

/-! ## Characters -/

def isBreak (c : Char) : Bool := c = '\n' || c = '\r'

/-- Whether a character stands between words. -/
def isGap (c : Char) : Bool := isBlank c || isBreak c

/-- Whether a word is over before this, the next character or the end of the text. -/
def endsWord (next : Option Char) : Bool := next.all isGap

/-- Whether a line is over before this, the next character or the end of the text. -/
def endsLine (next : Option Char) : Bool := next.all isBreak

/-- The brackets and the comma of values in brackets. -/
def isFlowMark (c : Char) : Bool := c = ',' || c = '[' || c = ']' || c = '\x7b' || c = '\x7d'

/-- Characters of the names of anchors, tags and directives. -/
def isNameChar (c : Char) : Bool := c.isAlphanum || c = '_' || c = '-'

/-! ## Places -/

/-- What is left of a text, and how much is before it. -/
structure Place where
  rest : List Char
  /-- How many characters are before. -/
  index : Nat
  /-- How many line feeds are before. -/
  line : Nat
  /-- How many characters are between the last line feed and here. -/
  column : Nat
  deriving DecidableEq, Repr

namespace Place

/-- The start of a text. -/
def start (text : List Char) : Place := ⟨text, 0, 0, 0⟩

/-- The next character, or one further on. -/
def peek (p : Place) (ahead : Nat) : Option Char := p.rest[ahead]?

/-- The place after the next character. -/
def next (p : Place) : Place :=
  match p.rest with
  | [] => p
  | c :: rest =>
    if c = '\n' then ⟨rest, p.index + 1, p.line + 1, 0⟩
    else ⟨rest, p.index + 1, p.line, p.column + 1⟩

/-- The place after so many characters. -/
def after : Nat → Place → Place
  | 0, p => p
  | n + 1, p => after n p.next

/-- The characters that pass a test, up to the first that does not. -/
def takeWhile (p : Place) (test : Char → Bool) : List Char := p.rest.takeWhile test

/-- The place of the first character that does not pass a test. -/
def skipWhile (p : Place) (test : Char → Bool) : Place := p.after (p.takeWhile test).length

/-- The place after a line end, if there is one here. -/
def skipBreak (p : Place) : Place :=
  match p.rest with
  | '\r' :: '\n' :: _ => p.after 2
  | c :: _ => if isBreak c then p.next else p
  | [] => p

/-- The end of the line. -/
def lineEnd (p : Place) : Place := p.skipWhile (!isBreak ·)

/-- Whether a line begins here that starts with a mark three times, and nothing right after it. -/
def atMark (p : Place) (mark : Char) : Bool :=
  p.column = 0 && p.rest.take 3 = [mark, mark, mark] && endsWord (p.peek 3)

/-- Whether a document starts or ends here. -/
def atDocumentMark (p : Place) : Bool := p.atMark '-' || p.atMark '.'

end Place

/-! ## Gaps -/

/-- The number of line ends in a text; a carriage return and the line feed after it are one. -/
def breakCount : List Char → Nat
  | '\r' :: '\n' :: rest => breakCount rest + 1
  | c :: rest => if isBreak c then breakCount rest + 1 else breakCount rest
  | [] => 0

/-- What a gap between words stands for: blanks for themselves, one line end for a blank, and more
for one less. -/
def joinGap (gap : List Char) : List Char :=
  match breakCount gap with
  | 0 => gap
  | 1 => [' ']
  | n + 2 => List.replicate (n + 1) '\n'

/-- Whether a gap that begins in a column has a tab, on a line after its first, before the column
`indent`. -/
def hasEarlyTab (indent : Int) : (column : Nat) → (broken : Bool) → List Char → Bool
  | _, _, [] => false
  | column, broken, c :: rest =>
    if c = '\n' then hasEarlyTab indent 0 true rest
    else if c = '\r' then hasEarlyTab indent (column + 1) true rest
    else (broken && c = '\t' && column < indent) || hasEarlyTab indent (column + 1) broken rest

end Yaml

end CursorPaging
