/-
Module: TsxLint.Command.Program
Purpose: The whole program: from the words of a command line to its end.
Main exports: Program.run
-/
import TsxLint.Command.Fix
import TsxLint.Command.Listing

namespace TsxLint.Program

/-!
A command line is read first; one that makes no sense ends the program before
anything is printed or written.
-/

/-- The name of the program. -/
def name : String := "tsx-guard"

/-- The version of the program. -/
def version : String := "0.1.0"

/-- How a command is called. -/
def usage (command : Option String) : String :=
  match command with
  | none => s!"Usage: {name} [OPTIONS] COMMAND [ARGS]..."
  | some c =>
    s!"Usage: {name} {c} [OPTIONS]" ++ if Request.takesPaths c then " PATHS..." else ""

/-- Prints a line as it is. -/
def say {σ : Type} (line : String) : Shell σ Int := do
  Shell.print [⟨.out, line ++ "\n"⟩]
  pure 0

/-- Does what a request asks for. -/
def perform {σ : Type} (grammar : Grammar σ) (around : Surroundings) (request : Request) :
    Shell σ Int :=
  match request with
  | .version => say s!"{name}, version {version}"
  | .help command => say (usage command)
  | .check target json common => Shell.check grammar around target json common
  | .fix target dryRun common => Shell.fix grammar around target dryRun common
  | .rules json common => Shell.listRules around json common
  | .config json sources common => Shell.showSettings around json sources common

/-- Runs the program on the words of a command line. -/
def run {σ : Type} (grammar : Grammar σ) (around : Surroundings) (words : List String)
    (state : ShellState σ) : Ending × ShellState σ :=
  match Request.ofWords state.workspace words with
  | .error e => (.usage e, state)
  | .ok request => (perform grammar around request).finish state

end TsxLint.Program
