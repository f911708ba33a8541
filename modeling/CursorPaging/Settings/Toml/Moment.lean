import CursorPaging.Settings.Toml.Text

/-!
# TOML dates and times

A date, a time of day, or both with an optional offset. Settings keep them as text.

* `Toml.isMoment`: the form and the ranges;
* **`Toml.moment`**: read one from a text.
-/

namespace CursorPaging

namespace Toml

/-- The number of two digits at the front. -/
def twoDigits : Reader Nat
  | a :: b :: rest => if a.isDigit && b.isDigit then some (numberOf 10 [a, b], rest) else none
  | _ => none

/-- Take a mark off the front. -/
def expect (mark : Char) : List Char → Option (List Char)
  | c :: rest => if c = mark then some rest else none
  | [] => none

/-- What follows a date such as `1979-05-27`. -/
def afterDate (text : List Char) : Option (List Char) := do
  let (_, text) ← twoDigits text
  let (_, text) ← twoDigits text
  let text ← expect '-' text
  let (month, text) ← twoDigits text
  let text ← expect '-' text
  let (day, text) ← twoDigits text
  if 1 ≤ month && month ≤ 12 && 1 ≤ day && day ≤ 31 then some text else none

/-- What follows a fraction of a second, if there is one. -/
def afterFraction : List Char → Option (List Char)
  | '.' :: text =>
    let rest := text.dropWhile Char.isDigit
    if rest.length = text.length then none else some rest
  | text => some text

/-- What follows a time such as `07:32:00.5`. -/
def afterTime (text : List Char) : Option (List Char) := do
  let (hour, text) ← twoDigits text
  let text ← expect ':' text
  let (minute, text) ← twoDigits text
  let text ← expect ':' text
  let (second, text) ← twoDigits text
  let text ← afterFraction text
  if hour ≤ 24 && minute ≤ 59 && second ≤ 59 then some text else none

/-- Whether a text is an offset such as `Z` or `-08:00`, or nothing. -/
def isOffset : List Char → Bool
  | [] => true
  | ['Z'] => true
  | ['z'] => true
  | c :: text =>
    (c = '+' || c = '-') &&
      (do
        let (_, text) ← twoDigits text
        let text ← expect ':' text
        let (_, text) ← twoDigits text
        some text.isEmpty : Option Bool) = some true

/-- Whether a text is a date, a time, or both. An offset may end what has a date. -/
def isMoment (text : List Char) : Bool :=
  if text.length < 3 then false
  else if text[2]? = some ':' then afterTime text = some []
  else match afterDate text with
    | none => false
    | some [] => true
    | some (c :: rest) =>
      if c = 'T' || c = 't' || c = ' ' then (afterTime rest).any isOffset else isOffset (c :: rest)

/-! ## Reading -/

/-- Take a word off the front that is not empty. -/
def word? (text : List Char) : Option (List Char) :=
  let (word, rest) := bareWord text
  if word.isEmpty then none else some rest

/-- Take a mark and a word off the front, if the mark is there. -/
def markedWord (mark : Char) (text : List Char) : Option (List Char) :=
  match expect mark text with
  | some rest => word? rest
  | none => some text

/-- What follows the minutes and the further parts of a time, which are words with marks between
them. -/
def afterMinutes (text : List Char) : Option (List Char) := do
  let text ← word? text
  let text ← expect ':' text
  let text ← word? text
  let text ← markedWord '.' text
  let text ← markedWord '+' text
  markedWord ':' text

/-- What follows a single blank and a word, if those are at the front. -/
def afterBlankWord (text : List Char) : List Char :=
  match text with
  | ' ' :: rest => (word? rest).getD text
  | _ => text

/-- A date or time whose first word is taken; `rest` follows that. A colon shows that the minutes
follow. -/
def moment (word rest : List Char) : Option (String × List Char) :=
  let timed := match rest with
    | ':' :: rest => afterMinutes (afterBlankWord rest)
    | _ =>
      match afterBlankWord rest with
      | ':' :: rest => afterMinutes rest
      | rest => some rest
  match timed with
  | none => none
  | some after =>
    let text := word ++ rest.take (rest.length - after.length)
    if isMoment text then some (String.ofList text, after) else none

end Toml

end CursorPaging
