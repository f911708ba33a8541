import CursorPaging.Record
import CursorPaging.Text.Base64
import CursorPaging.Text.Utf8

/-!
# What can go wrong

Failures by cause, and their wording.

* `PositionFault`: why a token is no position; `KeyFault`: why a row or key does not fit a table;
* `StoreError`: why a store answers no page;
* **`PagingError`**: why a walk, or a step of setting one up, fails.
-/

namespace CursorPaging

/-- The ways in which a source goes on from page to page. -/
inductive SourceKind where
  /-- A sorted query over one partition. -/
  | rangeQuery
  /-- A scan over a table. -/
  | scan
  /-- A request for explicit keys. -/
  | batchGet
  deriving DecidableEq, Repr

def SourceKind.name : SourceKind → String
  | .rangeQuery => "range query"
  | .scan => "scan"
  | .batchGet => "batch get"

/-- What can be asked of a source and is not answered by every kind. -/
inductive Operation where
  | keySchema
  | setExclusiveStartKey
  | lastEvaluatedKey
  | keyFields
  | hashKeyField
  | isHashKeyField
  | removeHashKey
  | removeOnlyKeyField
  | separateHashKey
  deriving DecidableEq, Repr

def Operation.name : Operation → String
  | .keySchema => "key_schema"
  | .setExclusiveStartKey => "set_exclusive_start_key"
  | .lastEvaluatedKey => "last_evaluated_key"
  | .keyFields => "key_fields"
  | .hashKeyField => "hash_key_field"
  | .isHashKeyField => "is_hash_key_field"
  | .removeHashKey => "removing the hash key from a position"
  | .removeOnlyKeyField => "removing the only key field from a position"
  | .separateHashKey => "resuming with a separate hash key"

/-- Why a token, or the key in it, is no position. -/
inductive PositionFault where
  /-- There is no key field to encode. -/
  | noFields
  | emptyToken
  | tooLong (size max : Nat)
  | foreign (c : Char)
  /-- Escapes that undo to no text. -/
  | badEscape
  | base64 (fault : Base64.Fault)
  | utf8 (fault : Utf8.Fault)
  /-- An entry that is no field and value. -/
  | notPair (entry : String)
  | notNumeric (field text : String)
  | unknownTag (field : String)
  | repeated (field : String)
  /-- A key of another partition than the one a query reads. -/
  | otherPartition (hashKey : String) (value requested : Scalar)
  deriving DecidableEq, Repr

def PositionFault.message : PositionFault → String
  | .noFields => "a position needs at least one key field"
  | .emptyToken => "position token is empty"
  | .tooLong size max =>
    "position token is " ++ toString size ++ " bytes but at most " ++ toString max ++ " are accepted"
  | .foreign c => "position token contains " ++ Quoted.character c
  | .badEscape => "escaped text is not valid utf-8"
  | .base64 fault => fault.message
  | .utf8 fault => fault.message
  | .notPair entry => "entry " ++ Quoted.text entry ++ " is not a field=value pair"
  | .notNumeric field text =>
    "field " ++ Quoted.text field ++ " is tagged numeric but holds " ++ Quoted.text text
  | .unknownTag field => "field " ++ Quoted.text field ++ " has an unknown value tag"
  | .repeated field => "field " ++ Quoted.text field ++ " appears more than once"
  | .otherPartition hashKey value requested =>
    "position is for " ++ hashKey ++ " " ++ value.display ++ " not " ++ requested.display

/-- Why a row or key does not fit the key layout of its table. -/
inductive KeyFault where
  | wrongKind (field : String) (kind : Scalar.Kind)
  | missing (field : String)
  /-- A range condition on a table that has no range key. -/
  | noRangeKey
  /-- A start key of another partition than the one a query reads. -/
  | otherPartition (value requested : Scalar)
  deriving DecidableEq, Repr

def KeyFault.message : KeyFault → String
  | .wrongKind field kind => "key field " ++ Quoted.text field ++ " holds a " ++ kind.name ++ " value"
  | .missing field => "missing key field " ++ Quoted.text field
  | .noRangeKey => "range conditions need a range key"
  | .otherPartition value requested =>
    "start key is in partition " ++ value.display ++ " not " ++ requested.display

/-- Why a store answers no page. -/
inductive StoreError where
  | unknownTable (table : String)
  | invalidKey (table : String) (fault : KeyFault)
  /-- Any other failure, in the words of the store. -/
  | unavailable (cause : String)
  deriving DecidableEq, Repr

def StoreError.message : StoreError → String
  | .unknownTable table => "unknown table " ++ Quoted.text table
  | .invalidKey table fault =>
    "invalid key for table " ++ Quoted.text table ++ ": " ++ fault.message
  | .unavailable cause => cause

/-- A call that came at the wrong point of a walk. -/
inductive Misuse where
  | alreadyFailed
  | nothingLeft
  | positionAfterStart
  | limitAfterStart
  deriving DecidableEq, Repr

def Misuse.message : Misuse → String
  | .alreadyFailed => "this traversal already failed"
  | .nothingLeft => "next was called with no results left"
  | .positionAfterStart => "positions must be set before iterating"
  | .limitAfterStart => "limits must be set before iterating"

/-- Why a walk, or a step of setting one up, fails. -/
inductive PagingError where
  | corruptPosition (fault : PositionFault)
  /-- A key field holds a value of a kind that positions cannot carry. -/
  | unsupportedKind (field : String) (kind : Scalar.Kind)
  /-- A numeric key field holds text that spells no finite number. -/
  | invalidNumber (field text : String)
  | misuse (cause : Misuse)
  | limitReached (limit : Nat)
  | noLimit
  | invalidLimit (limit : Nat)
  /-- The operation does not exist for this kind of source. -/
  | unsupported (kind : SourceKind) (operation : Operation)
  | missingKeyField (field : String)
  | fetch (cause : StoreError)
  /-- A record could not be made into a result. -/
  | materialize (cause : String)
  deriving DecidableEq, Repr

def PagingError.message : PagingError → String
  | .corruptPosition fault => "corrupt position: " ++ fault.message
  | .unsupportedKind field kind =>
    "field " ++ Quoted.text field ++ " holds a " ++ kind.name ++
      " value which cannot be part of a position"
  | .invalidNumber field text =>
    "field " ++ Quoted.text field ++ " holds " ++ Quoted.text text ++ " which is not a finite number"
  | .misuse cause => "usage error: " ++ cause.message
  | .limitReached limit => "the limit of " ++ toString limit ++ " results was already reached"
  | .noLimit => "no limit was configured"
  | .invalidLimit limit => "a limit must be positive but " ++ toString limit ++ " was given"
  | .unsupported kind operation => operation.name ++ " is not supported by " ++ kind.name ++ " sources"
  | .missingKeyField field => "missing key field " ++ Quoted.text field
  | .fetch cause => "failed to fetch a page: " ++ cause.message
  | .materialize cause => "failed to materialize a record: " ++ cause

end CursorPaging
