import CursorPaging.Text.Unprintable

/-!
# Quoted text

Text as messages show it: between quotation marks, with escapes for the marks, the backslash, the
common controls and all that has no shape of its own.

* `Quoted.text` between double marks, `Quoted.character` between single ones.
-/

namespace CursorPaging

namespace Quoted

/-- A code point as a braced lower-case hexadecimal escape. -/
def codePoint (c : Char) : String :=
  "\\u\x7b" ++ String.ofList (Nat.toDigits 16 c.toNat) ++ "\x7d"

/-- One character inside quotation marks `mark`. -/
def escape (mark c : Char) : String :=
  if c = '\x00' then "\\0"
  else if c = '\t' then "\\t"
  else if c = '\r' then "\\r"
  else if c = '\n' then "\\n"
  else if c = '\\' then "\\\\"
  else if c = mark then "\\" ++ String.singleton c
  else if isUnprintable c then codePoint c
  else String.singleton c

/-- A text between double quotation marks. -/
def text (s : String) : String :=
  "\"" ++ String.join (s.toList.map (escape '"')) ++ "\""

/-- A character between single quotation marks. -/
def character (c : Char) : String := "'" ++ escape '\'' c ++ "'"

end Quoted

end CursorPaging
