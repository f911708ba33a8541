import CursorPaging.Number.Digit
import CursorPaging.Text.Utf8

/-!
# Percent escapes

Every byte of a text that is no ASCII letter or digit is written as `%` and two upper-case
hexadecimal digits. Reading takes digits of either case and leaves a `%` that starts no escape
alone.

* `Percent.escape`, `Percent.unescape` on bytes;
* `Percent.encode`, `Percent.decode?` on texts.
-/

namespace CursorPaging

namespace Percent

/-- An ASCII letter or digit. -/
def isPlain (c : Char) : Bool := c.isAlphanum

/-- The upper-case hexadecimal digit of a number below sixteen. -/
def hexDigit (n : Nat) : Char := Char.ofNat (if n < 10 then 48 + n else 55 + n)

/-- One byte, escaped unless it is plain. -/
def escapeByte (byte : UInt8) : List Char :=
  let c := Char.ofNat byte.toNat
  if isPlain c then [c] else ['%', hexDigit (byte.toNat / 16), hexDigit (byte.toNat % 16)]

/-- Bytes, escaped one by one. -/
def escape (bytes : List UInt8) : List Char := bytes.flatMap escapeByte

/-- The byte that two hexadecimal digits stand for. -/
def escapedByte? (high low : Char) : Option UInt8 :=
  match digitValue? high, digitValue? low with
  | some h, some l => some (UInt8.ofNat (h * 16 + l))
  | _, _ => none

/-- The bytes of a text with its escapes undone. -/
def unescape : List Char → List UInt8
  | [] => []
  | [a] => String.utf8EncodeChar a
  | [a, b] => String.utf8EncodeChar a ++ String.utf8EncodeChar b
  | a :: b :: c :: rest =>
    if a = '%' then
      match escapedByte? b c with
      | some byte => byte :: unescape rest
      | none => String.utf8EncodeChar a ++ unescape (b :: c :: rest)
    else String.utf8EncodeChar a ++ unescape (b :: c :: rest)

/-- A text with every byte escaped that is not plain. -/
def encode (text : List Char) : List Char := escape (Utf8.encode text)

/-- A text with its escapes undone, if the bytes are a text again. -/
def decode? (text : List Char) : Option (List Char) := (Utf8.decode (unescape text)).toOption

end Percent

end CursorPaging
