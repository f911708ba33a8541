import CursorPaging.Error
import CursorPaging.Text.Percent
import CursorPaging.Text.Pieces

/-!
# Position tokens

A resume key as an opaque text that is safe in a URL, and back. Every field becomes
`field=<tag><text>` with the name and the tagged value escaped on their own; the fields are joined
with `&`, the joined text is wrapped in base64, and that is escaped again. Only texts (`S`) and
numbers (`N`) can be part of a position.

* `PositionCodec`: a bound on the length of tokens that are read;
* **`PositionCodec.encode`**, **`PositionCodec.decode`**.
-/

namespace CursorPaging

/-- The longest token that is read by default, in bytes. -/
def defaultMaxTokenLength : Nat := 8 * 1024

/-- Reads and writes position tokens. -/
structure PositionCodec where
  /-- The longest token that is read, in bytes. -/
  maxTokenLength : Nat
  deriving DecidableEq, Repr

namespace PositionCodec

def default : PositionCodec := ⟨defaultMaxTokenLength⟩

instance : Inhabited PositionCodec := ⟨default⟩

/-! ## Writing -/

/-- The value of a field as its tag and text. -/
def tagged (field : String) : Scalar → Except PagingError (List Char)
  | .text value => .ok ('S' :: value.toList)
  | .number digits =>
    if (Binary64.finite? digits).isSome then .ok ('N' :: digits.toList)
    else .error (.invalidNumber field digits)
  | value => .error (.unsupportedKind field value.kind)

/-- One field. -/
def encodeEntry (entry : String × Scalar) : Except PagingError (List Char) :=
  (tagged entry.1 entry.2).map fun value =>
    Percent.encode entry.1.toList ++ '=' :: Percent.encode value

/-- The fields one by one, up to the first that cannot be part of a position. -/
def encodeEntries : List (String × Scalar) → Except PagingError (List (List Char))
  | [] => .ok []
  | entry :: rest =>
    match encodeEntry entry with
    | .error e => .error e
    | .ok text => (encodeEntries rest).map (text :: ·)

/-- Base64 and the escapes around it. -/
def wrap (joined : List Char) : List Char := Percent.encode (Base64.encode (Utf8.encode joined))

/-- The token of a key. -/
def encode (_codec : PositionCodec) (key : ResumeKey) : Except PagingError String :=
  if key.fields.isEmpty then .error (.corruptPosition .noFields)
  else (encodeEntries key.fields.entries).map fun texts =>
    String.ofList (wrap (List.intercalate ['&'] texts))

/-! ## Reading -/

/-- The field and value of an entry. -/
def decodeEntry (entry : List Char) : Except PositionFault (String × Scalar) :=
  match pieces '=' entry with
  | [left, right] =>
    match Percent.decode? left with
    | none => .error .badEscape
    | some name =>
      let field := String.ofList name
      match Percent.decode? right with
      | none => .error .badEscape
      | some ('S' :: text) => .ok (field, .text (String.ofList text))
      | some ('N' :: text) =>
        let digits := String.ofList text
        if (Binary64.finite? digits).isSome then .ok (field, .number digits)
        else .error (.notNumeric field digits)
      | some _ => .error (.unknownTag field)
  | _ => .error (.notPair (String.ofList entry))

/-- The entries one by one, added to the fields before them. -/
def decodeEntries (fields : FieldMap) : List (List Char) → Except PositionFault FieldMap
  | [] => .ok fields
  | entry :: rest =>
    match decodeEntry entry with
    | .error fault => .error fault
    | .ok (field, value) =>
      if fields.contains field then .error (.repeated field)
      else decodeEntries (fields.insert field value) rest

/-- Undo the escapes and the base64 of a token. -/
def unwrap (token : List Char) : Except PositionFault (List Char) :=
  let symbols := Percent.unescape token
  match Utf8.decode symbols with
  | .error _ => .error .badEscape
  | .ok _ =>
    match Base64.decode symbols with
    | .error fault => .error (.base64 fault)
    | .ok bytes =>
      match Utf8.decode bytes with
      | .error fault => .error (.utf8 fault)
      | .ok joined => .ok joined

/-- The characters of tokens. -/
def isTokenChar (c : Char) : Bool := Percent.isPlain c || c == '%'

/-- The key fields in a token, or why it is no position. -/
def parse (codec : PositionCodec) (token : String) : Except PositionFault FieldMap :=
  if token = "" then .error .emptyToken
  else if codec.maxTokenLength < Utf8.size token then
    .error (.tooLong (Utf8.size token) codec.maxTokenLength)
  else match token.toList.find? (!isTokenChar ·) with
    | some c => .error (.foreign c)
    | none =>
      match unwrap token.toList with
      | .error fault => .error fault
      | .ok joined => decodeEntries FieldMap.empty (pieces '&' joined)

/-- The key of a token. -/
def decode (codec : PositionCodec) (token : String) : Except PagingError ResumeKey :=
  match codec.parse token with
  | .ok fields => .ok ⟨fields⟩
  | .error fault => .error (.corruptPosition fault)

end PositionCodec

end CursorPaging
