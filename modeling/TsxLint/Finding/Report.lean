/-
Module: TsxLint.Finding.Report
Purpose: Reports of single files: counts, thresholds and the written form.
Main exports: Report, Report.shouldFail, Report.value, RunResult.report
-/
import TsxLint.Finding.Record

namespace TsxLint

/-!
A report is the outcome of a run over one file in exchange with other programs.
It answers how many findings there are of each severity and whether one of them
reaches a threshold.
-/

/-- A failed rule as written down. -/
structure ErrorRecord where
  ruleId : Value
  message : Value
  kind : Value
deriving Repr, Inhabited

/-- The written form of a failed rule. -/
def ErrorRecord.value (e : ErrorRecord) : Value :=
  .object [("rule_id", e.ruleId), ("error_message", e.message), ("exception_type", e.kind)]

/-- The record of a failed rule. -/
def RuleError.record (e : RuleError) : ErrorRecord :=
  ⟨.str e.ruleId, .str e.fault.message, .str e.fault.kind⟩

/-- The report of one file. -/
structure Report where
  path : String
  findings : List FindingRecord
  errors : List ErrorRecord
  executed : Int
  skipped : Int
  hasSyntaxErrors : Bool
deriving Repr, Inhabited

namespace Report

/-- Whether some finding is at or above a threshold. -/
def shouldFail (r : Report) (threshold : Severity) : Bool :=
  r.findings.any fun f => decide (threshold ≤ f.severity)

/-- The findings of a severity. -/
def ofSeverity (r : Report) (severity : Severity) : List FindingRecord :=
  r.findings.filter fun f => f.severity = severity

/-- The findings of a rule. -/
def ofRule (r : Report) (id : Value) : List FindingRecord :=
  r.findings.filter fun f => Value.equal f.ruleId id

/-- How many findings can be mended. -/
def fixableCount (r : Report) : Nat := (r.findings.filter FindingRecord.isFixable).length

/-- The counts of a report. -/
def summary (r : Report) : Value :=
  .object ([("total_findings", .nat r.findings.length), ("fixable", .nat r.fixableCount)] ++
    Severity.all.map fun s => (s.name, .nat (r.ofSeverity s).length))

/-- The written form of a report; `milliseconds` is the time the run took. -/
def value (r : Report) (milliseconds : Binary64) : Value :=
  .object
    [("file_path", .str r.path), ("findings", .list (r.findings.map FindingRecord.value)),
      ("errors", .list (r.errors.map ErrorRecord.value)),
      ("execution_time_ms", .float milliseconds), ("rules_executed", .int r.executed),
      ("rules_skipped", .int r.skipped), ("has_syntax_errors", .bool r.hasSyntaxErrors),
      ("summary", r.summary)]

end Report

/-- The report of a run at a time. -/
def RunResult.report (now : String) (r : RunResult) : Report where
  path := r.path.text
  findings := r.findings.map (Finding.record now)
  errors := r.errors.map RuleError.record
  executed := r.executed
  skipped := r.skipped
  hasSyntaxErrors := r.hasSyntaxErrors

/-- Whether a run found something at or above a threshold. -/
def RunResult.shouldFail (r : RunResult) (threshold : Severity) : Bool :=
  r.findings.any fun f => decide (threshold ≤ f.severity)

end TsxLint
