/-
Module: TsxLint.Command.Fix
Purpose: The command that mends files.
Main exports: Shell.fix
-/
import TsxLint.Command.Check
import TsxLint.Diff.Unified

namespace TsxLint

/-!
Mending goes through the files one by one.  A file whose text changes is written,
or its differences are printed when nothing is to be written.  What is left to
find is printed as a check would print it, and the exit status is that of a check.
-/

namespace Shell

variable {σ : Type}

/-- What mending does with files. -/
structure Mended where
  changed : Nat
  remaining : List Finding
  unreadable : Bool

/-- Writes a mended file, or shows how it would change. -/
def deliver (r : Reporter) (dryRun : Bool) (entry : SourceEntry) (result : FixResult) :
    Shell σ Unit := do
  let path := entry.path.text
  if result.changed then
    if dryRun then
      print [r.echo .out
        (Diff.unified s!"a/{path}" s!"b/{path}" result.before result.content)]
    else
      writeSource entry result.content
      print (r.success s!"{path}: {result.applied} fixes in {result.passes} passes")
  else if result.remaining.hasSyntaxErrors then
    print (r.warning s!"{path}: not fixed, file has syntax errors")

/-- Mends files. -/
def fixFiles (grammar : Grammar σ) (around : Surroundings) (r : Reporter) (dryRun : Bool)
    (e : Engine) (selection : RuleSelection) : List SourceEntry → Shell σ Mended
  | [] => pure ⟨0, [], false⟩
  | entry :: rest => do
    match ← readSource r entry with
    | none =>
      let later ← fixFiles grammar around r dryRun e selection rest
      pure { later with unreadable := true }
    | some input =>
      let result ← ofSession r.quiet (e.fix grammar selection input)
      deliver r dryRun entry result
      printFindings around r result.remaining.findings
      let later ← fixFiles grammar around r dryRun e selection rest
      pure
        { later with
          changed := later.changed + if result.changed then 1 else 0
          remaining := result.remaining.findings ++ later.remaining }

/-- Mends files and reports what is left. -/
def fix (grammar : Grammar σ) (around : Surroundings) (target : Target) (dryRun : Bool)
    (common : CommonOptions) : Shell σ Int := do
  let r := reporter around common.verbose common.quiet common.noColor
  openLog r common
  orReport r do
    let loaded ← loadSettings r.quiet common
    let e ← buildEngine r loaded.settings target
    let files ← collect r target
    let mended ← fixFiles grammar around r dryRun e (selectionOf target) files
    let failed := countFailed loaded.settings.failOn mended.remaining
    let verb := if dryRun then "would change" else "changed"
    print (r.info s!"{mended.changed} of {files.length} files {verb}")
    print (r.summary
      { total := mended.remaining.length
        fixable := 0
        failed := failed
        files := some files.length
        milliseconds := some noTime })
    pure (exitCode mended.unreadable failed)

end Shell

end TsxLint
