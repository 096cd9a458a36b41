/-
Module: TsxLint.Engine.Run
Purpose: Running rules over a file.
Main exports: Rule.check, Engine.inspect, Engine.run
-/
import TsxLint.Engine.Registry
import TsxLint.Engine.Session

namespace TsxLint

/-!
Rules run one after the other over the same parsed file, each without regard to
the others.  A rule that fails contributes its fault and no findings; settings
decide whether the rules behind it still run.
-/

/-- The findings of a rule in a file. -/
def Rule.check (rule : Rule) (settings : Settings) (source : SourceFile) :
    Outcome (List Finding) := do
  let own := settings.ofRule rule.id
  let options ← rule.optionsUnder own
  let violations ← rule.visit source options
  violations.mapM (Finding.ofViolation rule.id (rule.severityUnder own) source)

/-- What a list of rules found. -/
structure Tally where
  findings : List Finding
  errors : List RuleError
  executed : Nat

namespace Tally

/-- Nothing was run. -/
def empty : Tally := ⟨[], [], 0⟩

/-- Runs rules in order.  After a failure the rest is run only if settings say so. -/
def ofRules (settings : Settings) (source : SourceFile) : List Rule → Tally
  | [] => empty
  | rule :: rest =>
    match rule.check settings source with
    | .ok findings =>
      let later := ofRules settings source rest
      ⟨findings ++ later.findings, later.errors, later.executed + 1⟩
    | .error fault =>
      let later := if settings.continueOnError.truthy then ofRules settings source rest else empty
      ⟨later.findings, ⟨rule.id, fault⟩ :: later.errors, later.executed + 1⟩

end Tally

/-- The warnings that a run gives. -/
def RunResult.warnings (r : RunResult) : List Warning :=
  (if r.hasSyntaxErrors then [.syntaxErrors r.path] else []) ++
    r.errors.map fun e => .ruleFailed e.ruleId r.path e.fault

namespace Engine

/-- The selected rules that are for a language. -/
def applicable (e : Engine) (selection : RuleSelection) (language : String) : List Rule :=
  (e.select selection).filter fun rule => rule.supports language

/-- Runs the selected rules over a parsed file. -/
def inspect (e : Engine) (selection : RuleSelection) (language : String) (source : SourceFile) :
    RunResult :=
  let rules := e.applicable selection language
  let tally := Tally.ofRules e.settings source rules
  { path := source.path
    findings := tally.findings
    errors := tally.errors
    executed := tally.executed
    skipped := (e.select selection).length - rules.length
    hasSyntaxErrors := source.hasErrors }

/-- Parses an input and runs the selected rules over it. -/
def run {σ : Type} (e : Engine) (grammar : Grammar σ) (selection : RuleSelection) (input : Input) :
    Session σ RunResult := do
  let source ← Session.parse grammar input
  let result := e.inspect selection input.language source
  Session.warn result.warnings
  pure result

end Engine

end TsxLint
