/-
Module: TsxLint.Log.Setup
Purpose: Loggers by category, and where log entries go.
Main exports: LogCategory, LogOptions, LogHandler, LogOptions.setUp
-/
import TsxLint.Log.Level
import TsxLint.Command.Workspace

namespace TsxLint

/-!
All entries go to the console, as far as their level is wanted there, and to a log file
if there is one, whatever their level.  Quiet output wants errors only and verbose output
everything; quiet wins.
-/

/-- The parts of the program with loggers of their own. -/
inductive LogCategory where
  | analysis
  | rules
  | fixer
  | cli
deriving DecidableEq, Repr

namespace LogCategory

/-- The name of a category. -/
def name : LogCategory → String
  | .analysis => "analysis"
  | .rules => "rules"
  | .fixer => "fixer"
  | .cli => "cli"

/-- The category that a value names. -/
def ofValue (given : Value) : Outcome LogCategory :=
  match [LogCategory.analysis, .rules, .fixer, .cli].find? fun c => given == .str c.name with
  | some c => .ok c
  | none => .error (.unknownName "LogCategory" given)

end LogCategory

/-- The name of the logger that all others are below. -/
def topLogger : String := "tsx_guard"

/-- The name of the logger of a category. -/
def LogCategory.logger (c : LogCategory) : String := topLogger ++ "." ++ c.name

/-- How entries are written. -/
inductive LogLayout where
  | text
  | json
deriving DecidableEq, Repr

/-- The layout that a name stands for. -/
def LogLayout.ofName (name : String) : LogLayout := if name = "json" then .json else .text

/-- A place that entries go to. -/
structure LogHandler where
  level : LogLevel
  layout : LogLayout
deriving DecidableEq, Repr

/-- Which entries are wanted where. -/
structure LogOptions where
  /-- The level of the console unless output is quiet or verbose, in any case. -/
  level : Value
  quiet : Bool
  verbose : Bool
  file : Option String
  /-- How entries are written to the file. -/
  fileLayout : LogLayout
deriving Repr

namespace LogOptions

/-- The options where none are given. -/
def initial : LogOptions := ⟨.str "WARNING", false, false, none, .text⟩

/-- The level of the console. -/
def consoleLevel (o : LogOptions) : Outcome LogLevel :=
  if o.quiet then .ok .error
  else if o.verbose then .ok .debug
  else
    match o.level with
    | .str name =>
      match LogLevel.ofName? (LogLevel.capitals name) with
      | some level => .ok level
      | none => .error (.handlerUnavailable "console")
    | v => .error (.noMember v.typeName "upper")

/-- The log file, if one is wanted. -/
def file? (o : LogOptions) : Option String := o.file.filter (· != "")

/-- Makes sure that there is a log file if one is wanted, and says where entries go. -/
def setUp (o : LogOptions) (w : Workspace) : Outcome (Workspace × List LogHandler) := do
  let level ← o.consoleLevel
  let console : LogHandler := ⟨level, .text⟩
  match o.file? with
  | none => pure (w, [console])
  | some path =>
    let opened ← w.openLog path
    pure (opened, [console, ⟨.debug, o.fileLayout⟩])

end LogOptions

end TsxLint
