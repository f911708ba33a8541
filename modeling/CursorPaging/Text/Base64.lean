/-!
# Base64

The standard alphabet with padding. Reading is strict: padding is required, nothing may follow it,
and the bits that a short last group leaves over are zero.

* `Base64.symbol`, `Base64.value?`: the alphabet both ways;
* `Base64.encode`, `Base64.decode`, with the failures `Base64.Fault`.
-/

namespace CursorPaging

namespace Base64

/-- The symbol of a number below 64. -/
def symbol (n : Nat) : Char :=
  if n < 26 then Char.ofNat (65 + n)
  else if n < 52 then Char.ofNat (71 + n)
  else if n < 62 then Char.ofNat (n - 4)
  else if n = 62 then '+'
  else '/'

/-- The number of a byte of the alphabet. -/
def value? (byte : UInt8) : Option Nat :=
  let n := byte.toNat
  if 65 ≤ n ∧ n ≤ 90 then some (n - 65)
  else if 97 ≤ n ∧ n ≤ 122 then some (n - 71)
  else if 48 ≤ n ∧ n ≤ 57 then some (n + 4)
  else if n = 43 then some 62
  else if n = 47 then some 63
  else none

/-- The byte of the padding symbol. -/
def padding : UInt8 := 61

/-- Bytes in groups of three, each as four symbols. -/
def encode : List UInt8 → List Char
  | [] => []
  | [a] => [symbol (a.toNat / 4), symbol (a.toNat % 4 * 16), '=', '=']
  | [a, b] =>
    [symbol (a.toNat / 4), symbol (a.toNat % 4 * 16 + b.toNat / 16), symbol (b.toNat % 16 * 4), '=']
  | a :: b :: c :: rest =>
    symbol (a.toNat / 4) :: symbol (a.toNat % 4 * 16 + b.toNat / 16) ::
      symbol (b.toNat % 16 * 4 + c.toNat / 64) :: symbol (c.toNat % 64) :: encode rest

/-- Why some symbols are no bytes. Offsets count bytes of the symbols' text. -/
inductive Fault where
  | symbol (byte : UInt8) (offset : Nat)
  | length (symbols : Nat)
  | padding
  | lastSymbol (byte : UInt8) (offset : Nat)
  deriving DecidableEq, Repr

/-- The number of the symbol at `offset`. -/
def valueAt (offset : Nat) (byte : UInt8) : Except Fault Nat :=
  match value? byte with
  | some n => .ok n
  | none => .error (.symbol byte offset)

/-- The three bytes of four numbers below 64. -/
def bytesOf (a b c d : Nat) : List UInt8 :=
  [UInt8.ofNat (a * 4 + b / 16), UInt8.ofNat (b % 16 * 16 + c / 4), UInt8.ofNat (c % 4 * 64 + d)]

/-- A full group of four symbols at `offset`. -/
def group (offset : Nat) (a b c d : UInt8) : Except Fault (List UInt8) :=
  match valueAt offset a with
  | .error fault => .error fault
  | .ok a => match valueAt (offset + 1) b with
    | .error fault => .error fault
    | .ok b => match valueAt (offset + 2) c with
      | .error fault => .error fault
      | .ok c => match valueAt (offset + 3) d with
        | .error fault => .error fault
        | .ok d => .ok (bytesOf a b c d)

/-- Split the last group into its symbols and the count of its padding. Padding needs two symbols
before it, and only padding follows padding. -/
def splitPadding (offset : Nat) :
    (seen : Nat) → (firstPadding : Option Nat) → List UInt8 → Except Fault (List Nat × Nat)
  | _, _, [] => .ok ([], 0)
  | seen, firstPadding, byte :: rest =>
    if byte = padding then
      if seen < 2 then .error (.symbol byte (offset + seen))
      else match splitPadding offset (seen + 1) (firstPadding <|> some (offset + seen)) rest with
        | .ok (values, count) => .ok (values, count + 1)
        | .error fault => .error fault
    else match firstPadding with
      | some at_ => .error (.symbol padding at_)
      | none => match valueAt (offset + seen) byte with
        | .error fault => .error fault
        | .ok n => match splitPadding offset (seen + 1) none rest with
          | .ok (values, count) => .ok (n :: values, count)
          | .error fault => .error fault

/-- The last group of at most four symbols at `offset`. -/
def lastGroup (offset : Nat) (symbols : List UInt8) : Except Fault (List UInt8) :=
  match splitPadding offset 0 none symbols with
  | .error fault => .error fault
  | .ok (values, count) =>
    if values.length < 2 then .error (.length (offset + values.length))
    else if values.length + count ≠ 4 then .error .padding
    else
      let last := .lastSymbol (symbols.getD (values.length - 1) 0) (offset + values.length - 1)
      match values with
      | [a, b] => if b % 16 = 0 then .ok ((bytesOf a b 0 0).take 1) else .error last
      | [a, b, c] => if c % 4 = 0 then .ok ((bytesOf a b c 0).take 2) else .error last
      | [a, b, c, d] => .ok (bytesOf a b c d)
      | _ => .error .padding

/-- Read on at `offset`: full groups, and a last one of at most four symbols. -/
def decodeFrom (offset : Nat) : List UInt8 → Except Fault (List UInt8)
  | a :: b :: c :: d :: e :: rest =>
    match group offset a b c d with
    | .error fault => .error fault
    | .ok bytes => match decodeFrom (offset + 4) (e :: rest) with
      | .error fault => .error fault
      | .ok more => .ok (bytes ++ more)
  | [] => .ok []
  | last => lastGroup offset last

/-- A last symbol that has no group to belong to and is not in the alphabet. It is reported before
all else. -/
def strayLast? (symbols : List UInt8) : Option Fault :=
  match symbols.getLast? with
  | some byte =>
    if symbols.length % 4 = 1 ∧ byte ≠ padding ∧ value? byte = none then
      some (.symbol byte (symbols.length - 1))
    else none
  | none => none

/-- The bytes of some symbols. -/
def decode (symbols : List UInt8) : Except Fault (List UInt8) :=
  match strayLast? symbols with
  | some fault => .error fault
  | none => decodeFrom 0 symbols

/-- What is wrong with some symbols, in words. -/
def Fault.message : Fault → String
  | .symbol byte offset =>
    "Invalid symbol " ++ toString byte.toNat ++ ", offset " ++ toString offset ++ "."
  | .length symbols => "Invalid input length: " ++ toString symbols
  | .padding => "Invalid padding"
  | .lastSymbol byte offset =>
    "Invalid last symbol " ++ toString byte.toNat ++ ", offset " ++ toString offset ++ "."

end Base64

end CursorPaging
