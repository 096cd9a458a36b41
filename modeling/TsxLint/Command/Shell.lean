/-
Module: TsxLint.Command.Shell
Purpose: Commands at work: printing, files, and how they end.
Main exports: Shell, Surroundings, Ending, Shell.finish
-/
import TsxLint.Command.Request
import TsxLint.Terminal.Reporter
import TsxLint.Terminal.Problem
import TsxLint.Engine.Fix
import TsxLint.Log.Setup

namespace TsxLint

/-!
A command reads and writes files of a workspace, asks a grammar for trees and
prints.  It may stop early: because of a problem that the user can mend, which is
printed and decides the exit status, or because of a fault.
-/

/-- What surrounds a command. -/
structure Surroundings where
  /-- Whether the environment forbids or forces colours. -/
  noColor : Bool
  forceColor : Bool
  /-- Whether output is a terminal. -/
  terminal : Bool
  /-- The time, for reports. -/
  now : String
deriving Repr

/-- The state of a command. -/
structure ShellState (σ : Type) where
  supply : σ
  workspace : Workspace
  printed : List Printed

/-- Why a command stops early. -/
inductive Stop where
  | fault (f : Fault)
  | problem (p : Problem)

/-- How a command ends. -/
inductive Ending where
  | exit (code : Int)
  | usage (e : UsageError)
  | fault (f : Fault)

/-- A command at work. -/
abbrev Shell (σ : Type) := ExceptT Stop (StateM (ShellState σ))

namespace Shell

variable {σ α : Type}

/-- Prints texts. -/
def print (texts : List Printed) : Shell σ Unit :=
  modify fun s => { s with printed := s.printed ++ texts }

/-- The workspace. -/
def workspace : Shell σ Workspace := do
  let s ← get
  pure s.workspace

/-- The value of an outcome, or its fault. -/
def ofOutcome (outcome : Outcome α) : Shell σ α :=
  match outcome with
  | .ok a => pure a
  | .error f => throw (.fault f)

/-- Ends with a problem. -/
def fail (p : Problem) : Shell σ α := throw (.problem p)

/-- The log line of a warning. -/
def warningLine (w : Warning) : Printed := ⟨.err, "WARNING | " ++ w.message ++ "\n"⟩

/-- Prints warnings, unless output is quiet. -/
def warn (quiet : Bool) (warnings : List Warning) : Shell σ Unit :=
  if quiet then pure () else print (warnings.map warningLine)

/-- Does what a session does; its warnings are printed unless output is quiet. -/
def ofSession (quiet : Bool) (session : Session σ α) : Shell σ α := do
  let s ← get
  let (result, desk) := (session.run : StateM (Desk σ) (Except Fault α)) ⟨s.supply, []⟩
  set { s with supply := desk.supply }
  warn quiet desk.warnings
  ofOutcome result

/-- How a reporter prints in given surroundings. -/
def reporter (around : Surroundings) (verbose quiet noColor : Bool) : Reporter where
  useColor := Terminal.useColor
    ⟨if noColor then some false else none, around.noColor, around.forceColor,
      some around.terminal⟩
  quiet
  verbose
  keepsCodes := around.terminal

/-- Opens the log file, if one is wanted. -/
def openLog (r : Reporter) (common : CommonOptions) : Shell σ Unit := do
  let s ← get
  let options : LogOptions :=
    { LogOptions.initial with
      quiet := r.quiet
      verbose := r.verbose
      file := common.logFile
      fileLayout := LogLayout.ofName common.logFormat }
  let (w, _) ← ofOutcome (options.setUp s.workspace)
  set { s with workspace := w }

/-- Prints a problem and gives its exit status. -/
def report (r : Reporter) (p : Problem) : Shell σ Int := do
  print [r.echoLine .err (p.format r.useColor)]
  pure p.exitCode

/-- Lets a command that stops with a problem end with the problem's status. -/
def orReport (r : Reporter) (command : Shell σ Int) : Shell σ Int :=
  tryCatch command fun stop =>
    match stop with
    | .problem p => report r p
    | .fault f => throw (.fault f)

/-- How a command ends, and what it leaves behind. -/
def finish (command : Shell σ Int) (s : ShellState σ) : Ending × ShellState σ :=
  match (command.run : StateM (ShellState σ) (Except Stop Int)) s with
  | (.ok code, s) => (.exit code, s)
  | (.error (.fault f), s) => (.fault f, s)
  | (.error (.problem p), s) => (.exit p.exitCode, s)

/-! ### Settings, rules and files -/

/-- The settings in a file that was named explicitly. -/
def explicitSettings (path : String) : Shell σ Settings := do
  let w ← workspace
  match Settings.loadExplicit ((w.readAt path).getD ByteArray.empty) with
  | .ok settings => pure settings
  | .error f => fail (.unusableSettings s!"Invalid configuration: {f.message}" (some path))

/-- The settings of a command and the files they are from. -/
def loadSettings (quiet : Bool) (common : CommonOptions) : Shell σ LoadedSettings := do
  match common.config with
  | none | some "" =>
    let w ← workspace
    let loaded := Settings.load w.layers
    warn quiet (loaded.rejected.map fun r => .settingsRejected r.1 r.2)
    pure loaded
  | some path =>
    let settings ← explicitSettings path
    pure ⟨settings, [FilePath.parse path], []⟩

/-- Checks the rules that were asked for by name. -/
def checkRules (r : Reporter) (e : Engine) : List String → Shell σ Unit
  | [] => pure ()
  | id :: rest => do
    if (Catalog.find? id).isNone then fail (.unknownRule id)
    if (e.rule? id).isNone then print (r.warning s!"Rule {id} is disabled by configuration")
    checkRules r e rest

/-- An engine with the rules of the catalog, of which those asked for exist. -/
def buildEngine (r : Reporter) (settings : Settings) (target : Target) : Shell σ Engine := do
  let e := Engine.ofSettings settings
  checkRules r e target.rules
  pure e

/-- A file to look at: its path as printed, and its parts. -/
structure SourceEntry where
  path : FilePath
  parts : List String

/-- Directories whose contents are left out of walks. -/
def skippedDirectories : List String := ["node_modules", "dist", "build", ".git"]

/-- Whether a file found in a walk is to be looked at. -/
def isCandidate (parts : List String) : Bool :=
  (Language.ofPath? ⟨"", parts⟩).isSome && !parts.dropLast.any skippedDirectories.contains

/-- The files that a path stands for, none if it is a file that cannot be
parsed. -/
def candidates (w : Workspace) (path : FilePath) : Option (List SourceEntry) :=
  let place := (w.follow path.text).getD []
  if w.kindOf path.text = some .directory then
    some (((w.walk place).filter isCandidate).map fun parts => ⟨path.join parts, place ++ parts⟩)
  else if (Language.ofPath? path).isSome then some [⟨path, place⟩]
  else none

/-- Adds files that are not there yet. -/
def addNew (known : List SourceEntry) (found : List SourceEntry) : List SourceEntry :=
  found.foldl (fun known entry =>
    if known.any fun other => other.parts == entry.parts then known else known ++ [entry]) known

/-- The files that paths stand for, each once. -/
def collectFrom (r : Reporter) (known : List SourceEntry) :
    List String → Shell σ (List SourceEntry)
  | [] => pure known
  | raw :: rest => do
    let w ← workspace
    let path := FilePath.parse raw
    match candidates w path with
    | some found => collectFrom r (addNew known found) rest
    | none =>
      print (r.warning s!"Skipping unsupported file: {path.text}")
      collectFrom r known rest

/-- The files of a target. -/
def collect (r : Reporter) (target : Target) : Shell σ (List SourceEntry) :=
  collectFrom r [] target.paths

/-- The text of a file; one that is no text is a problem, printed but not the end
of the command. -/
def readSource (r : Reporter) (entry : SourceEntry) : Shell σ (Option Input) := do
  let w ← workspace
  match Text.decode ((w.read? entry.parts).getD ByteArray.empty) with
  | .ok text => pure (some (Input.ofText entry.path text none))
  | .error e =>
    let problem := Problem.unreadableFile entry.path.text (some e.message)
    print (r.error problem.message)
    pure none

/-- Writes the text of a file. -/
def writeSource (entry : SourceEntry) (text : String) : Shell σ Unit :=
  modify fun s => { s with workspace := s.workspace.write entry.parts text.toUTF8 }

/-- The selection of a target. -/
def selectionOf (target : Target) : RuleSelection := ⟨target.rules, target.categories⟩

end Shell

end TsxLint
