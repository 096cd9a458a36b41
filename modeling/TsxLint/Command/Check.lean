/-
Module: TsxLint.Command.Check
Purpose: The command that reports findings.
Main exports: Shell.check, Shell.exitCode
-/
import TsxLint.Command.Shell
import TsxLint.Finding.Report
import TsxLint.Json.Writer

namespace TsxLint

/-!
A check goes through the files one by one, prints what there is to find and ends
with a summary.  Its exit status is two if a file could not be read, else one if
a finding reaches the threshold of the settings, and else zero.
-/

namespace Shell

variable {σ : Type}

/-- The exit status of a command that looked at files. -/
def exitCode (unreadable : Bool) (failed : Nat) : Int :=
  if unreadable then Problem.defaultExitCode else if 0 < failed then 1 else 0

/-- Prints findings, one a line. -/
def printFindings (around : Surroundings) (r : Reporter) (findings : List Finding) :
    Shell σ Unit :=
  findings.forM fun f => do
    let lines ← ofOutcome (r.finding (f.record around.now))
    print lines

/-- How many findings are at or above a threshold. -/
def countFailed (threshold : Severity) (findings : List Finding) : Nat :=
  (findings.filter fun f => decide (threshold ≤ f.severity)).length

/-- The time that a run takes in reports. -/
def noTime : Binary64 := .ofInt 0

/-- What a check does with files: the results, and whether a file could not be
read. -/
structure Checked where
  results : List RunResult
  unreadable : Bool

/-- Prints what a run found. -/
def printResult (around : Surroundings) (r : Reporter) (json : Bool) (result : RunResult) :
    Shell σ Unit := do
  let path := result.path.text
  let found := result.findings.length
  print (r.debug
    s!"{path}: {found} findings from {result.executed} rules in {noTime.fixed 1}ms")
  if !json then
    printFindings around r result.findings
    print (result.errors.flatMap fun e =>
      r.warning s!"{path}: rule {e.ruleId} failed: {e.fault.message}")

/-- Checks files. -/
def checkFiles (grammar : Grammar σ) (around : Surroundings) (r : Reporter) (json : Bool)
    (e : Engine) (selection : RuleSelection) : List SourceEntry → Shell σ Checked
  | [] => pure ⟨[], false⟩
  | entry :: rest => do
    match ← readSource r entry with
    | none =>
      let later ← checkFiles grammar around r json e selection rest
      pure { later with unreadable := true }
    | some input =>
      let result ← ofSession r.quiet (e.run grammar selection input)
      printResult around r json result
      let later ← checkFiles grammar around r json e selection rest
      pure { later with results := result :: later.results }

/-- The report of a check as one written object. -/
def checkedValue (around : Surroundings) (settings : Settings) (results : List RunResult) : Value :=
  let reports := results.map (RunResult.report around.now)
  let findings := results.flatMap (·.findings)
  .object
    [("files", .list (reports.map fun report => report.value noTime)),
      ("summary", .object
        [("files", .nat results.length), ("total_findings", .nat findings.length),
          ("fixable", .nat (findings.filter Finding.fixable).length),
          ("failing", .nat (countFailed settings.failOn findings)),
          ("fail_on_severity", .str settings.failOn.name)])]

/-- Prints the end of a check. -/
def printChecked (around : Surroundings) (r : Reporter) (json : Bool) (settings : Settings)
    (results : List RunResult) : Shell σ Unit :=
  if json then
    print [r.echoLine .out (Json.indented (checkedValue around settings results))]
  else
    let findings := results.flatMap (·.findings)
    print (r.summary
      { total := findings.length
        fixable := (findings.filter Finding.fixable).length
        failed := countFailed settings.failOn findings
        files := some results.length
        milliseconds := some noTime })

/-- Reports findings. -/
def check (grammar : Grammar σ) (around : Surroundings) (target : Target) (json : Bool)
    (common : CommonOptions) : Shell σ Int := do
  let r := reporter around common.verbose (common.quiet || json) common.noColor
  openLog r common
  orReport r do
    let loaded ← loadSettings r.quiet common
    let e ← buildEngine r loaded.settings target
    let files ← collect r target
    let checked ← checkFiles grammar around r json e (selectionOf target) files
    printChecked around r json loaded.settings checked.results
    let failed := countFailed loaded.settings.failOn (checked.results.flatMap (·.findings))
    pure (exitCode checked.unreadable failed)

end Shell

end TsxLint
