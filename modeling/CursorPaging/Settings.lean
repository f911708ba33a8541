import CursorPaging.Position

/-!
# Settings

* `PagingSettings`: how many rows and keys a page takes, and how long a token may be;
* `LogLevel`, `LoggingSettings`;
* `Settings`, `Settings.default`.
-/

namespace CursorPaging

/-- The settings of paging. -/
structure PagingSettings where
  /-- The rows that a page of a query or scan reads. -/
  pageSize : Nat
  /-- The keys that one batch call resolves. -/
  batchMax : Nat
  /-- The longest position token that is read. -/
  maxTokenLength : Nat
  deriving DecidableEq, Repr

def PagingSettings.default : PagingSettings := ⟨100, 100, defaultMaxTokenLength⟩

/-- The codec that these settings bound. -/
def PagingSettings.codec (settings : PagingSettings) : PositionCodec := ⟨settings.maxTokenLength⟩

/-- From which level on messages are logged. -/
inductive LogLevel where
  | trace
  | debug
  | info
  | warn
  | error
  | off
  deriving DecidableEq, Repr

namespace LogLevel

/-- The name of a level in settings. -/
def name : LogLevel → String
  | .trace => "Trace"
  | .debug => "Debug"
  | .info => "Info"
  | .warn => "Warn"
  | .error => "Error"
  | .off => "Off"

/-- The name of the filter that a level sets. -/
def filter (level : LogLevel) : String := level.name.toLower

def all : List LogLevel := [.trace, .debug, .info, .warn, .error, .off]

/-- The level of a name, letter by letter. -/
def ofName? (name : String) : Option LogLevel := all.find? (·.name = name)

end LogLevel

/-- The settings of logging. -/
structure LoggingSettings where
  level : LogLevel
  deriving DecidableEq, Repr

def LoggingSettings.default : LoggingSettings := ⟨.info⟩

/-- All settings. -/
structure Settings where
  paging : PagingSettings
  logging : LoggingSettings
  deriving DecidableEq, Repr

def Settings.default : Settings := ⟨.default, .default⟩

end CursorPaging
