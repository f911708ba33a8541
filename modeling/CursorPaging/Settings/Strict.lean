import CursorPaging.Settings
import CursorPaging.Settings.Json

/-!
# Settings taken as they are

A document read as settings without any conversion. Members that are missing have their defaults
and unknown ones are ignored; a list stands for the members in the order of their declaration.

* **`Settings.ofDocument?`**.
-/

namespace CursorPaging

-- powers are those of the core library
attribute [local instance (10000)] instPowNat

namespace Strict

/-- The members of some names. A list may leave out the last ones and may not be longer. -/
def members? (names : List String) : Document → Option (List (Option Document))
  | .table members => some (names.map fun name => members.lookup name)
  | .list items =>
    if items.length ≤ names.length then
      some (items.map some ++ List.replicate (names.length - items.length) none)
    else none
  | _ => none

/-- A count of 64 bits. -/
def count? (default : Nat) : Option Document → Option Nat
  | none => some default
  | some (.integer n) => if 0 ≤ n ∧ n < 2 ^ (64 : Nat) then some n.toNat else none
  | some _ => none

/-- A level by its name, or as the only member of a table, with nothing as its value. -/
def level? : Option Document → Option LogLevel
  | none => some LoggingSettings.default.level
  | some (.text name) => LogLevel.ofName? name
  | some (.table [(name, .null)]) => LogLevel.ofName? name
  | some _ => none

def paging? : Option Document → Option PagingSettings
  | none => some .default
  | some document =>
    match members? ["page_size", "batch_get_max", "max_token_len"] document with
    | some [pageSize, batchMax, maxTokenLength] =>
      match count? PagingSettings.default.pageSize pageSize,
        count? PagingSettings.default.batchMax batchMax,
        count? PagingSettings.default.maxTokenLength maxTokenLength with
      | some pageSize, some batchMax, some maxTokenLength =>
        some ⟨pageSize, batchMax, maxTokenLength⟩
      | _, _, _ => none
    | _ => none

def logging? : Option Document → Option LoggingSettings
  | none => some .default
  | some document =>
    match members? ["level"] document with
    | some [level] => (level? level).map LoggingSettings.mk
    | _ => none

/-- A whole number that fits 64 bits with or without a sign; others are kept as the nearest
float. -/
def ofInt (n : Int) : Document :=
  if -2 ^ (63 : Nat) ≤ n ∧ n < 2 ^ (64 : Nat) then .integer n else Document.ofInt n

end Strict

/-- The settings that a document holds. -/
def Settings.ofDocument? (document : Document) : Option Settings :=
  match Strict.members? ["paging", "tracing"] document with
  | some [paging, logging] =>
    match Strict.paging? paging, Strict.logging? logging with
    | some paging, some logging => some ⟨paging, logging⟩
    | _, _ => none
  | _ => none

end CursorPaging
