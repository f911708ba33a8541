import CursorPaging.Number.Integer
import CursorPaging.Settings.Document
import CursorPaging.Settings.Toml.Text

/-!
# TOML numbers

Underscores may stand between digits. Numbers have no leading zeros, and those after the mark of a
base have no sign.

* `Toml.digits?`: digits without their underscores;
* `Toml.float?`, **`Toml.number`**.
-/

namespace CursorPaging

-- powers are those of the core library
attribute [local instance (10000)] instPowNat

namespace Toml

/-- The digits at the front, with single underscores after some of them. -/
def digitRun (base : Nat) : (afterDigit : Bool) → List Char → List Char × List Char
  | _, [] => ([], [])
  | afterDigit, c :: rest =>
    if isDigitOf base c then
      let (run, rest) := digitRun base true rest
      (c :: run, rest)
    else if c = '_' && afterDigit then
      let (run, rest) := digitRun base false rest
      (c :: run, rest)
    else ([], c :: rest)

/-- The digits at the front without their underscores, which are followed by digits. Zeros at the
front are refused unless `zeros`. -/
def digits? (base : Nat) (zeros : Bool) : Reader (List Char) := fun text =>
  let (run, rest) := digitRun base false text
  let digits := run.filter (· ≠ '_')
  if run.isEmpty || run.getLast? = some '_' ||
      (!zeros && digits.head? = some '0' && 1 < digits.length) then none
  else some (digits, rest)

/-- Whether a minus is at the front, and what follows it. -/
def takeMinus : List Char → Bool × List Char
  | '-' :: rest => (true, rest)
  | rest => (false, rest)

def minusSign (minus : Bool) : List Char := if minus then ['-'] else []

/-- The whole number of a word after the mark of a base. -/
def based? (base : Nat) (word : List Char) : Option Document :=
  match digits? base true word with
  | some (digits, []) =>
    let n := numberOf base digits
    if n < 2 ^ (63 : Nat) then some (.integer n) else none
  | _ => none

/-- The whole number that a word spells. -/
def whole? (word : List Char) : Option Document :=
  let (minus, body) := takeMinus word
  match digits? 10 false body with
  | some (digits, []) =>
    (Integer.signed? 64 (String.ofList (minusSign minus ++ digits))).map .integer
  | _ => none

/-- The exponent after its mark, and what follows the word. A plus is no part of a word, so the digits
after it are the next one. -/
def exponent? (mark : List Char) (rest : List Char) : Option (List Char × List Char) :=
  match mark with
  | [] => none
  | [_] =>
    let (word, rest) := bareWord (match rest with
      | '+' :: rest => rest
      | rest => rest)
    match digits? 10 true word with
    | some (digits, []) => some (digits, rest)
    | _ => none
  | _ :: body =>
    let (minus, body) := takeMinus body
    match digits? 10 true body with
    | some (digits, []) => some (minusSign minus ++ digits, rest)
    | _ => none

/-- A float: the word before a point, the one after it if there is a point, and what follows. It has
to be finite. -/
def float? (word : List Char) (after : Option (List Char)) (rest : List Char) :
    Option (Document × List Char) :=
  let (minus, body) := takeMinus word
  match digits? 10 false body with
  | none => none
  | some (whole, tail) =>
    let fraction : Option (List Char × List Char) := match after with
      | none => some ([], tail)
      | some after =>
        if !tail.isEmpty then none
        else (digits? 10 true after).map fun (digits, tail) => ('.' :: digits, tail)
    match fraction with
    | none => none
    | some (fraction, tail) =>
      let power : Option (List Char × List Char) := match tail with
        | [] => some ([], rest)
        | c :: _ =>
          if c = 'e' || c = 'E' then
            (exponent? tail rest).map fun (digits, rest) => ('e' :: digits, rest)
          else none
      match power with
      | none => none
      | some (power, rest) =>
        let literal := String.ofList (minusSign minus ++ whole ++ fraction ++ power)
        (Binary64.finite? literal).map fun x => (.float x, rest)

/-- The infinities and no number, by their names. -/
def named? (word : List Char) : Option Document :=
  let (minus, name) := takeMinus word
  if name = "inf".toList then some (.float ⟨minus, Binary64.infinity⟩)
  else if name = "nan".toList then some (.float ⟨minus, Binary64.infinity + 2 ^ (51 : Nat)⟩)
  else none

/-- The number that begins with a word. -/
def number (word rest : List Char) : Option (Document × List Char) :=
  let whole (value : Option Document) := value.map fun x => (x, rest)
  match word with
  | '0' :: 'x' :: digits => whole (based? 16 digits)
  | '0' :: 'o' :: digits => whole (based? 8 digits)
  | '0' :: 'b' :: digits => whole (based? 2 digits)
  | _ =>
    if word.contains 'e' || word.contains 'E' then float? word none rest
    else match rest with
      | '.' :: rest =>
        let (after, rest) := bareWord rest
        if after.isEmpty then none else float? word (some after) rest
      | _ => whole (named? word <|> whole? word)

end Toml

end CursorPaging
