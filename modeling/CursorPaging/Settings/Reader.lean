import CursorPaging.Number.Digit

/-!
# Readers

What the notations of settings share.

* `Reader`: takes a value from the front of a text;
* `isBlank`, `charOf?`, `codedChar`.
-/

namespace CursorPaging

/-- A reader takes a value from the front of a text. -/
abbrev Reader (α : Type) := List Char → Option (α × List Char)

def isBlank (c : Char) : Bool := c = ' ' || c = '\t'

/-- The character of a code, if there is one. -/
def charOf? (code : Nat) : Option Char :=
  if code.isValidChar then some (Char.ofNat code) else none

/-- The character whose code is given by so many hexadecimal digits. -/
def codedChar (count : Nat) : Reader Char := fun text =>
  let digits := text.take count
  if digits.length = count && digits.all (isDigitOf 16) then
    (charOf? (numberOf 16 digits)).map fun c => (c, text.drop count)
  else none

end CursorPaging
