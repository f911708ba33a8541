/-!
# UTF-8

The bytes of a text, and the text of some bytes. Reading goes byte by byte and says of bytes that
are no text where the first bad sequence starts and why it is bad.

* `Utf8.encode`, `Utf8.size`;
* `Utf8.lead?`: what the first byte of a character announces;
* `Utf8.decode`, with its failures `Utf8.Fault`.
-/

namespace CursorPaging

namespace Utf8

/-- The bytes of a text. -/
def encode (text : List Char) : List UInt8 := text.flatMap String.utf8EncodeChar

/-- The number of bytes of a text. -/
def size (text : String) : Nat := text.utf8ByteSize

/-- Why some bytes are no text. -/
inductive Fault where
  /-- The sequence at `index` breaks after `length` bytes that were a valid start. -/
  | invalid (length index : Nat)
  /-- The bytes end within the sequence at `index`. -/
  | incomplete (index : Nat)
  deriving DecidableEq, Repr

/-- What a first byte announces: how many bytes are owed, the range of the next one, and its bits. -/
structure Lead where
  owed : Nat
  low : Nat
  high : Nat
  bits : Nat
  deriving DecidableEq, Repr

/-- The announcement of a first byte. Ranges are narrow where a longer form or no character would
follow. -/
def lead? (byte : Nat) : Option Lead :=
  if byte < 0x80 then some ⟨0, 0, 0, byte⟩
  else if byte < 0xC2 then none
  else if byte < 0xE0 then some ⟨1, 0x80, 0xBF, byte - 0xC0⟩
  else if byte = 0xE0 then some ⟨2, 0xA0, 0xBF, 0⟩
  else if byte = 0xED then some ⟨2, 0x80, 0x9F, 0xD⟩
  else if byte < 0xF0 then some ⟨2, 0x80, 0xBF, byte - 0xE0⟩
  else if byte = 0xF0 then some ⟨3, 0x90, 0xBF, 0⟩
  else if byte < 0xF4 then some ⟨3, 0x80, 0xBF, byte - 0xF0⟩
  else if byte = 0xF4 then some ⟨3, 0x80, 0x8F, 4⟩
  else none

/-- A character that is read in part: where it starts, how many bytes were read and what is
owed. -/
structure Partial where
  start : Nat
  seen : Nat
  lead : Lead

/-- Read on at `index`, within a character or between two. -/
def read : Option Partial → Nat → List UInt8 → Except Fault (List Char)
  | none, _, [] => .ok []
  | some p, _, [] => .error (.incomplete p.start)
  | none, index, byte :: rest =>
    match lead? byte.toNat with
    | none => .error (.invalid 1 index)
    | some lead =>
      if lead.owed = 0 then (read none (index + 1) rest).map (Char.ofNat lead.bits :: ·)
      else read (some ⟨index, 1, lead⟩) (index + 1) rest
  | some p, index, byte :: rest =>
    if p.lead.low ≤ byte.toNat ∧ byte.toNat ≤ p.lead.high then
      let bits := p.lead.bits * 64 + byte.toNat % 64
      if p.lead.owed = 1 then (read none (index + 1) rest).map (Char.ofNat bits :: ·)
      else read (some ⟨p.start, p.seen + 1, ⟨p.lead.owed - 1, 0x80, 0xBF, bits⟩⟩) (index + 1) rest
    else .error (.invalid p.seen p.start)

/-- The text of some bytes. -/
def decode (bytes : List UInt8) : Except Fault (List Char) := read none 0 bytes

/-- What is wrong with some bytes, in words. -/
def Fault.message : Fault → String
  | .invalid length index =>
    "invalid utf-8 sequence of " ++ toString length ++ " bytes from index " ++ toString index
  | .incomplete index => "incomplete utf-8 byte sequence from index " ++ toString index

end Utf8

end CursorPaging
