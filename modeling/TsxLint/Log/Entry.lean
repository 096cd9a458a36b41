/-
Module: TsxLint.Log.Entry
Purpose: Log entries and the object that is written for one.
Main exports: LogEntry, LogEntry.message, LogEntry.value
-/
import TsxLint.Log.Level
import TsxLint.Log.Template

namespace TsxLint

/-!
An entry says where it is from, how serious it is and what happened.  Its message is a
template with arguments; one without arguments is written as it stands.  What else an
entry carries is written only if it is one of a few agreed fields.
-/

/-- A log entry. -/
structure LogEntry where
  logger : String
  level : Int
  module : String
  function : String
  line : Int
  template : String
  arguments : List Value
  extras : Table Value
deriving Repr

namespace LogEntry

/-- The extra fields that are written. -/
def extraFields : List String :=
  ["duration_ms", "operation", "file_path", "rule_id", "finding_count"]

/-- The message of an entry. -/
def message (e : LogEntry) : Outcome String :=
  if e.arguments.isEmpty then .ok e.template else Template.fill e.template e.arguments

/-- The extra fields of an entry that are written, in their agreed order. -/
def writtenExtras (e : LogEntry) : Table Value :=
  extraFields.filterMap fun name => (Table.get? e.extras name).map fun v => (name, v)

/-- The object that is written for an entry, the time apart. -/
def value (e : LogEntry) : Outcome Value := do
  let message ← e.message
  pure (.object
    ([("level", .str (LogLevel.nameOf e.level)), ("logger", .str e.logger),
      ("module", .str e.module), ("function", .str e.function), ("line", .int e.line),
      ("message", .str message)] ++ e.writtenExtras))

end LogEntry

end TsxLint
