/-
Module: TsxLint.Command.Request
Purpose: What a command line asks for.
Main exports: Request, CommonOptions, Request.ofWords
-/
import TsxLint.Command.Arguments
import TsxLint.Command.Workspace
import TsxLint.Rules.Catalog

namespace TsxLint

/-!
A command line names a command, and options and arguments of the command.  The
given options are checked in the order in which they first appear, then the
paths, and then whether there are words too many.  Asking for help or for the
version comes before all of that.
-/

/-- Options of every command. -/
structure CommonOptions where
  verbose : Bool
  quiet : Bool
  noColor : Bool
  /-- A settings file that takes the place of all others. -/
  config : Option String
  logFile : Option String
  logFormat : String
deriving Repr

/-- What to look at, and with which rules. -/
structure Target where
  paths : List String
  rules : List String
  categories : List String
deriving Repr

/-- What a command line asks for. -/
inductive Request where
  | version
  | help (command : Option String)
  | check (target : Target) (json : Bool) (common : CommonOptions)
  | fix (target : Target) (dryRun : Bool) (common : CommonOptions)
  | rules (json : Bool) (common : CommonOptions)
  | config (json sources : Bool) (common : CommonOptions)
deriving Repr

namespace Request

/-! ### Commands and their options -/

/-- An option without a value. -/
def flag (long : String) (short : Option Char) : OptionSpec := ⟨long, short, false⟩

/-- An option with a value. -/
def valued (long : String) : OptionSpec := ⟨long, none, true⟩

/-- The options in front of a command. -/
def leadingOptions : List OptionSpec := [flag "--version" none, flag "--help" none]

/-- The options of every command. -/
def commonOptions : List OptionSpec :=
  [valued "--log-format", valued "--log-file", valued "--config", flag "--no-color" none,
    flag "--quiet" (some 'q'), flag "--verbose" (some 'v'), flag "--help" none]

/-- The options that select rules. -/
def selectionOptions : List OptionSpec := [valued "--category", valued "--rule"]

/-- The commands. -/
def commands : List String := ["check", "fix", "rules", "config"]

/-- The options of a command, if there is one of that name. -/
def optionsOf? (command : String) : Option (List OptionSpec) :=
  match command with
  | "check" => some (flag "--json" none :: selectionOptions ++ commonOptions)
  | "fix" => some (flag "--dry-run" none :: selectionOptions ++ commonOptions)
  | "rules" => some (flag "--json" none :: commonOptions)
  | "config" => some (flag "--json" none :: flag "--sources" none :: commonOptions)
  | _ => none

/-- Whether a command takes paths. -/
def takesPaths (command : String) : Bool := command == "check" || command == "fix"

/-! ### Checking values -/

/-- Checks that a value is one of the given ones. -/
def checkChoice (name : String) (choices : List String) (value : String) :
    Except UsageError Unit :=
  if choices.contains value then .ok ()
  else
    let list := ", ".intercalate (choices.map Text.quote)
    .error (.badValue name s!"{Text.quote value} is not one of {list}.")

/-- Checks that a file is there or may be made: never a directory. -/
def checkFile (w : Workspace) (name : String) (hasToExist : Bool) (value : String) :
    Except UsageError Unit :=
  match w.kindOf value with
  | some .directory => .error (.badValue name s!"File {Text.quote value} is a directory.")
  | some .file => .ok ()
  | none =>
    if hasToExist then .error (.badValue name s!"File {Text.quote value} does not exist.")
    else .ok ()

/-- Checks that there is something at a path. -/
def checkPath (w : Workspace) (value : String) : Except UsageError Unit :=
  match w.kindOf value with
  | some _ => .ok ()
  | none => .error (.badValue "PATHS..." s!"Path {Text.quote value} does not exist.")

/-- Checks the values of an option. -/
def checkOption (w : Workspace) (words : ParsedWords) (name : String) : Except UsageError Unit :=
  let last := ((words.value? name).toList)
  match name with
  | "--category" => (words.values name).forM (checkChoice name Catalog.categories)
  | "--log-format" => last.forM (checkChoice name ["text", "json"])
  | "--config" => last.forM (checkFile w name true)
  | "--log-file" => last.forM (checkFile w name false)
  | _ => .ok ()

/-- Checks the arguments of a command. -/
def checkArguments (w : Workspace) (command : String) (words : List String) :
    Except UsageError Unit :=
  if takesPaths command then
    if words.isEmpty then .error (.missingArgument "PATHS...") else words.forM (checkPath w)
  else if words.isEmpty then .ok ()
  else .error (.extraArguments words)

/-! ### Requests -/

/-- The options of every command among those given. -/
def commonOf (words : ParsedWords) : CommonOptions where
  verbose := words.has "--verbose"
  quiet := words.has "--quiet"
  noColor := words.has "--no-color"
  config := words.value? "--config"
  logFile := words.value? "--log-file"
  logFormat := (words.value? "--log-format").getD "text"

/-- What a command is to look at. -/
def targetOf (words : ParsedWords) : Target :=
  ⟨words.arguments, words.values "--rule", words.values "--category"⟩

/-- The request of a command whose words have been checked. -/
def ofCommand (command : String) (words : ParsedWords) : Request :=
  let common := commonOf words
  match command with
  | "check" => .check (targetOf words) (words.has "--json") common
  | "fix" => .fix (targetOf words) (words.has "--dry-run") common
  | "rules" => .rules (words.has "--json") common
  | _ => .config (words.has "--json") (words.has "--sources") common

/-- The request of the words behind a command. -/
def readCommand (w : Workspace) (command : String) (specs : List OptionSpec)
    (words : List String) : Except UsageError Request := do
  let parsed ← parseWords specs true words
  if parsed.has "--help" then pure (.help (some command))
  else
    parsed.names.forM (checkOption w parsed)
    checkArguments w command parsed.arguments
    pure (ofCommand command parsed)

/-- The request of a whole command line. -/
def ofWords (w : Workspace) (words : List String) : Except UsageError Request := do
  if words.isEmpty then pure (.help none)
  else
    let parsed ← parseWords leadingOptions false words
    match parsed.options.head?, parsed.arguments with
    | some ("--version", _), _ => pure .version
    | some _, _ => pure (.help none)
    | none, [] => throw .missingCommand
    | none, command :: rest =>
      match optionsOf? command with
      | some specs => readCommand w command specs rest
      | none =>
        if isOptionWord command then do
          let _ ← OptionSpec.read leadingOptions command
        throw (.noSuchCommand command (Diff.closeMatches command commands))

end Request

end TsxLint
