/-
Module: TsxLint.Terminal.Problem
Purpose: Problems that end a command, with advice for the user.
Main exports: Problem, ProblemCategory, Problem.format
-/
import TsxLint.Terminal.Style
import TsxLint.Fault

namespace TsxLint

/-!
Setting up a command can fail in ways that the user can mend.  Such a problem
says what is wrong, what to do about it, and what it is about, and decides the
exit status.
-/

/-- What kind of input is at fault. -/
inductive ProblemCategory where
  | configuration
  | fileSystem
  | validation
deriving DecidableEq, Repr

namespace ProblemCategory

/-- The name of a category. -/
def name : ProblemCategory → String
  | .configuration => "configuration"
  | .fileSystem => "file_system"
  | .validation => "validation"

/-- The category that a value names. -/
def ofValue (given : Value) : Outcome ProblemCategory :=
  match [ProblemCategory.configuration, .fileSystem, .validation].find? fun c =>
    given == .str c.name with
  | some c => .ok c
  | none => .error (.unknownName "ErrorCategory" given)

end ProblemCategory

/-- A problem that ends a command. -/
structure Problem where
  category : ProblemCategory
  message : String
  suggestion : Option String
  details : Table Value
  exitCode : Int
deriving Repr

namespace Problem

/-- The exit status of problems with usage, settings and files. -/
def defaultExitCode : Int := 2

/-- A source file that cannot be read. -/
def unreadableFile (path : String) (reason : Option String) : Problem where
  category := .fileSystem
  message :=
    "Cannot read source file: " ++ path ++
      match reason with
      | some r => if r = "" then "" else ": " ++ r
      | none => ""
  suggestion := some "Verify the file exists, is readable and is UTF-8 encoded"
  details := [("path", .str path)]
  exitCode := defaultExitCode

/-- A settings file, named explicitly, that cannot be used. -/
def unusableSettings (message : String) (file : Option String) : Problem where
  category := .configuration
  message := message
  suggestion := some "Check your tsxguard.json syntax and severity names"
  details :=
    match file with
    | some f => if f = "" then [] else [("config_file", .str f)]
    | none => []
  exitCode := defaultExitCode

/-- A rule that does not exist. -/
def unknownRule (id : String) : Problem where
  category := .validation
  message := "Unknown rule: " ++ id
  suggestion := some "Run 'tsx-guard rules' to list available rule IDs"
  details := [("rule_id", .str id)]
  exitCode := defaultExitCode

/-- A text in a style, if colours are wanted. -/
def style (useColor : Bool) (parameters : List String) (text : String) : String :=
  if useColor then Terminal.styled parameters text else text

/-- The word in front of every problem. -/
def label (useColor : Bool) : String := style useColor ["31", "1"] "Error:"

/-- The text of a problem: the message, the advice if there is one, and a line for
each detail. -/
def format (useColor : Bool) (p : Problem) : String :=
  let advice :=
    match p.suggestion with
    | some s => if s = "" then [] else [style useColor ["36"] "Suggestion:" ++ " " ++ s]
    | none => []
  let details := p.details.map fun d => style useColor ["2"] ("  " ++ d.1 ++ ": " ++ d.2.display)
  "\n".intercalate ((label useColor ++ " " ++ p.message) :: advice ++ details)

/-- The text of a failure that nobody foresaw. -/
def formatUnforeseen (useColor : Bool) (message : String) : String :=
  label useColor ++ " " ++ message

end Problem

end TsxLint
