/-
Module: TsxLint.Finding.Basic
Purpose: Findings, and the report of a run over one file.
Main exports: Finding, RuleError, RunResult, Finding.ofViolation
-/
import TsxLint.Rule.Basic

namespace TsxLint

/-!
A finding is a violation with everything a reader needs to know of the rule, the
file and the place.  A run over a file ends in the findings of all its rules and
in the faults of the rules that failed.
-/

/-- What a rule found at a place in a file. -/
structure Finding where
  ruleId : String
  severity : Severity
  summary : String
  path : FilePath
  span : Span
  /-- The first line of the source text in question, without the white space
  around it. -/
  snippet : String
  hints : List Value
  data : Table Value
  edits : List Edit

/-- Whether a finding can be mended. -/
def Finding.fixable (f : Finding) : Bool := !f.edits.isEmpty

/-- The first line of a text, without the white space around it. -/
def firstLine (s : String) : String :=
  Text.strip (String.ofList (s.toList.takeWhile (· != '\n')))

/-- The finding for a violation. -/
def Finding.ofViolation (ruleId : String) (severity : Outcome Severity) (source : SourceFile)
    (v : Violation) : Outcome Finding := do
  let text ← source.textOf v.node.span
  let severity ← severity
  pure ⟨ruleId, severity, v.message, source.path, v.node.span, firstLine text, v.hints, v.data,
    v.edits⟩

/-- A rule that failed on a file. -/
structure RuleError where
  ruleId : String
  fault : Fault
deriving Repr

/-- The outcome of a run over one file. -/
structure RunResult where
  path : FilePath
  findings : List Finding
  errors : List RuleError
  executed : Nat
  /-- Selected rules that are not for the language of the file. -/
  skipped : Nat
  hasSyntaxErrors : Bool

end TsxLint
