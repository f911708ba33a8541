import CursorPaging.Number.Scaled
import CursorPaging.Settings.Document
import CursorPaging.Settings.Reader

/-!
# Reading JSON

* **`Json.parse?`**: the document of a JSON text. Of two members of one name the later counts.
* `Json.parseWith?`: the same with a choice of how whole numbers are kept.
-/

namespace CursorPaging

-- powers are those of the core library
attribute [local instance (10000)] instPowNat

namespace Json

def isSpace (c : Char) : Bool := c = ' ' || c = '\n' || c = '\r' || c = '\t'

def skipSpace (text : List Char) : List Char := text.dropWhile isSpace

/-- The number of four hexadecimal digits. -/
def hex4 : Reader Nat := fun text =>
  let digits := text.take 4
  if digits.length = 4 && digits.all (isDigitOf 16) then some (numberOf 16 digits, text.drop 4)
  else none

/-- The character after a backslash and `u`; a character beyond the first plane takes two. -/
def unicodeEscape (text : List Char) : Option (Char × List Char) :=
  match hex4 text with
  | none => none
  | some (high, rest) =>
    if 0xD800 ≤ high ∧ high < 0xDC00 then
      match rest with
      | '\\' :: 'u' :: rest =>
        match hex4 rest with
        | some (low, rest) =>
          if 0xDC00 ≤ low ∧ low < 0xE000 then
            some (Char.ofNat (0x10000 + (high - 0xD800) * 0x400 + (low - 0xDC00)), rest)
          else none
        | none => none
      | _ => none
    else if 0xDC00 ≤ high ∧ high < 0xE000 then none
    else some (Char.ofNat high, rest)

/-- The character after a backslash. -/
def escape : Reader Char
  | '"' :: rest => some ('"', rest)
  | '\\' :: rest => some ('\\', rest)
  | '/' :: rest => some ('/', rest)
  | 'b' :: rest => some ('\x08', rest)
  | 'f' :: rest => some ('\x0c', rest)
  | 'n' :: rest => some ('\n', rest)
  | 'r' :: rest => some ('\r', rest)
  | 't' :: rest => some ('\t', rest)
  | 'u' :: rest => unicodeEscape rest
  | _ => none

/-- The characters up to the closing quotation mark. -/
def stringBody : Nat → Reader (List Char)
  | 0, _ => none
  | _ + 1, [] => none
  | fuel + 1, c :: rest =>
    if c = '"' then some ([], rest)
    else if c = '\\' then
      match escape rest with
      | none => none
      | some (c, rest) => (stringBody fuel rest).map fun (cs, rest) => (c :: cs, rest)
    else if c.toNat < 0x20 then none
    else (stringBody fuel rest).map fun (cs, rest) => (c :: cs, rest)

/-- Go on with a significand by digits for as long as it fits 64 bits: the significand, and the
digits that are left. -/
def accumulate : Nat → List Char → Nat × List Char
  | n, [] => (n, [])
  | n, c :: rest =>
    let next := n * 10 + (c.toNat - 48)
    if next < 2 ^ (64 : Nat) then accumulate next rest else (n, c :: rest)

/-- The digits after a point, if there is one. -/
def fractionOf (text : List Char) : Option (List Char) × List Char :=
  match text with
  | '.' :: rest => (some (rest.takeWhile Char.isDigit), rest.dropWhile Char.isDigit)
  | rest => (none, rest)

/-- The sign and the digits after the mark of an exponent, if there is one. -/
def exponentOf (text : List Char) : Option (Bool × List Char) × List Char :=
  match text with
  | c :: rest =>
    if c = 'e' ∨ c = 'E' then
      let (minus, rest) := Decimal.takeSign rest
      (some (minus, rest.takeWhile Char.isDigit), rest.dropWhile Char.isDigit)
    else (none, c :: rest)
  | [] => (none, [])

/-- A number that is not whole or too long for 64 bits. Digits beyond 64 bits only count for the
power of ten if they stand before the point. -/
def float? (minus : Bool) (whole fraction : List Char) (power : Int) : Option Document :=
  let (n, dropped) := accumulate 0 whole
  let (n, left) := accumulate n fraction
  let places : Int := (fraction.length - left.length : Nat)
  (Binary64.scaled? minus n (dropped.length - places + power)).map .float

/-- A number: no plus, no leading zeros, digits on both sides of a point. Minus zero is a float. -/
def number (ofInt : Int → Document) (text : List Char) : Option (Document × List Char) :=
  let (minus, body) := match text with
    | '-' :: rest => (true, rest)
    | rest => (false, rest)
  let whole := body.takeWhile Char.isDigit
  let (fraction, rest) := fractionOf (body.dropWhile Char.isDigit)
  let (exponent, rest) := exponentOf rest
  let n := Decimal.natOfDigits whole
  if whole.isEmpty || (whole.length > 1 && whole.head? = some '0') || fraction = some []
      || exponent.any (·.2.isEmpty) then none
  else if fraction.isNone && exponent.isNone && n < 2 ^ (64 : Nat) && !(minus && n = 0) then
    some (ofInt (if minus then -(n : Int) else n), rest)
  else
    let power : Int := match exponent with
      | some (true, digits) => -(Decimal.natOfDigits digits : Int)
      | some (false, digits) => Decimal.natOfDigits digits
      | none => 0
    (float? minus whole (fraction.getD []) power).map fun x => (x, rest)

/-- Drop a word from the front. -/
def word (expected : String) (value : Document) (text : List Char) :
    Option (Document × List Char) :=
  if expected.toList.isPrefixOf text then some (value, text.drop expected.length) else none

mutual

/-- A value after blanks, with as many levels of tables and lists as there are `levels`. -/
def value (ofInt : Int → Document) : Nat → (levels : Nat) → Reader Document
  | 0, _, _ => none
  | fuel + 1, levels, text =>
    match skipSpace text with
    | '\x7b' :: rest =>
      if levels = 0 then none
      else match skipSpace rest with
        | '\x7d' :: rest => some (.table [], rest)
        | rest =>
          (members ofInt fuel (levels - 1) [] rest).map fun (ms, rest) => (.table ms, rest)
    | '[' :: rest =>
      if levels = 0 then none
      else match skipSpace rest with
        | ']' :: rest => some (.list [], rest)
        | rest => (elements ofInt fuel (levels - 1) rest).map fun (xs, rest) => (.list xs, rest)
    | '"' :: rest => (stringBody fuel rest).map fun (cs, rest) => (.text (String.ofList cs), rest)
    | 't' :: rest => word "true" (.boolean true) ('t' :: rest)
    | 'f' :: rest => word "false" (.boolean false) ('f' :: rest)
    | 'n' :: rest => word "null" .null ('n' :: rest)
    | rest => number ofInt rest

/-- The values of a list that is open. -/
def elements (ofInt : Int → Document) : Nat → (levels : Nat) → Reader (List Document)
  | 0, _, _ => none
  | fuel + 1, levels, text =>
    match value ofInt fuel levels text with
    | none => none
    | some (x, rest) =>
      match skipSpace rest with
      | ',' :: rest => (elements ofInt fuel levels rest).map fun (xs, rest) => (x :: xs, rest)
      | ']' :: rest => some ([x], rest)
      | _ => none

/-- The members of a table that is open, added to those before. -/
def members (ofInt : Int → Document) : Nat → (levels : Nat) → List (String × Document) →
    Reader (List (String × Document))
  | 0, _, _, _ => none
  | fuel + 1, levels, before, text =>
    match skipSpace text with
    | '"' :: rest =>
      match stringBody fuel rest with
      | none => none
      | some (name, rest) =>
        match skipSpace rest with
        | ':' :: rest =>
          match value ofInt fuel levels rest with
          | none => none
          | some (v, rest) =>
            let all := setEntry (String.ofList name) v before
            match skipSpace rest with
            | ',' :: rest => members ofInt fuel levels all rest
            | '\x7d' :: rest => some (all, rest)
            | _ => none
        | _ => none
    | _ => none

end

/-- How deep tables and lists may stand in one another. -/
def maxLevels : Nat := 127

/-- The document of a text that holds one value and nothing else. -/
def parseWith? (ofInt : Int → Document) (text : String) : Option Document :=
  let cs := text.toList
  match value ofInt (2 * cs.length + 2) maxLevels cs with
  | some (v, rest) => if (skipSpace rest).isEmpty then some v else none
  | none => none

/-- The document of a JSON text, with whole numbers of 64 bits. -/
def parse? (text : String) : Option Document := parseWith? Document.ofInt text

end Json

end CursorPaging
