/-
Module: TsxLint.Log.Level
Purpose: The levels of log entries.
Main exports: LogLevel, LogLevel.nameOf, LogLevel.ofName?
-/
import TsxLint.Fault

namespace TsxLint

/-!
A level is a number, the higher the more serious, and some numbers have names.
-/

/-- The levels that have names. -/
inductive LogLevel where
  | unset
  | debug
  | info
  | warning
  | error
  | critical
deriving DecidableEq, Repr

namespace LogLevel

/-- Every named level, in order. -/
def all : List LogLevel := [.unset, .debug, .info, .warning, .error, .critical]

/-- The number of a level. -/
def number : LogLevel → Int
  | .unset => 0
  | .debug => 10
  | .info => 20
  | .warning => 30
  | .error => 40
  | .critical => 50

/-- The name of a level. -/
def name : LogLevel → String
  | .unset => "NOTSET"
  | .debug => "DEBUG"
  | .info => "INFO"
  | .warning => "WARNING"
  | .error => "ERROR"
  | .critical => "CRITICAL"

/-- The level with a name; two levels have a second name. -/
def ofName? (name : String) : Option LogLevel :=
  match name with
  | "FATAL" => some .critical
  | "WARN" => some .warning
  | _ => all.find? fun level => level.name == name

/-- The capital of a letter whose capital is in ASCII; two of these letters are not in ASCII
themselves. -/
def capital (c : Char) : Char :=
  if c = 'ı' then 'I' else if c = 'ſ' then 'S' else c.toUpper

/-- A text in capitals, as far as names of levels can tell. -/
def capitals (s : String) : String := String.ofList (s.toList.map capital)

/-- The name of a number, which says the number if it is that of no level. -/
def nameOf (number : Int) : String :=
  match all.find? fun level => level.number == number with
  | some level => level.name
  | none => s!"Level {number}"

/-- The number of a level leads back to its name. -/
@[simp] theorem nameOf_number (level : LogLevel) : nameOf level.number = level.name := by
  cases level <;> rfl

end LogLevel

end TsxLint
